import Mathlib.Data.List.Basic
import Mathlib.Data.List.Induction
import Mathlib.Data.List.Nodup
import Mathlib.Data.List.Perm.Basic
import Mathlib.Tactic.Common

/-!
# Bounded LRU maps

`LruMap M K V` is the interface of a map that holds at most a fixed number of entries and drops
the least recently used one to make room. `LruMap.order` is not an operation: it is the map's
entries from the most to the least recently used one, in terms of which `LawfulLruMap` states what
the operations do. `RecencyList` is the obvious implementation, a list in that order.
-/

namespace IpfixParser.Lib

/-! ### Association lists -/

section assoc

variable {K V : Type} [DecidableEq K] {l : List (K × V)} {k k' : K} {v : V}

/-- The value of `k`. -/
def findKey (k : K) (l : List (K × V)) : Option V := l.lookup k

/-- The list without the entry of `k`. -/
def eraseKey (k : K) (l : List (K × V)) : List (K × V) := l.filter fun e => e.1 ≠ k

@[simp] theorem findKey_nil (k : K) : findKey k ([] : List (K × V)) = none := rfl

theorem findKey_cons (k : K) (e : K × V) (l : List (K × V)) :
    findKey k (e :: l) = if k = e.1 then some e.2 else findKey k l := by
  obtain ⟨k₁, v₁⟩ := e
  rw [findKey, List.lookup_cons]
  by_cases h : k = k₁
  · simp [h]
  · simp [beq_eq_false_iff_ne.mpr h, h, findKey]

theorem findKey_append (k : K) (l l' : List (K × V)) :
    findKey k (l ++ l') = (findKey k l).or (findKey k l') := List.lookup_append

theorem mem_of_findKey (h : findKey k l = some v) : (k, v) ∈ l := by
  obtain ⟨l₁, l₂, rfl, _⟩ := List.lookup_eq_some_iff.mp h
  simp

theorem findKey_eq_none_iff : findKey k l = none ↔ k ∉ l.map Prod.fst := by
  simp only [findKey, List.lookup_eq_none_iff, bne_iff_ne, ne_eq, List.mem_map, not_exists, not_and]
  constructor
  · exact fun h e he heq => h e he heq.symm
  · exact fun h e he heq => h e he heq.symm

theorem findKey_isSome_iff : (findKey k l).isSome ↔ k ∈ l.map Prod.fst := by
  rw [← not_iff_not, ← findKey_eq_none_iff, Option.not_isSome_iff_eq_none]

theorem findKey_filter (p : K → Bool) (k : K) (l : List (K × V)) :
    findKey k (l.filter fun e => p e.1) = if p k then findKey k l else none := by
  induction l with
  | nil => simp
  | cons e l ih =>
    rw [List.filter_cons, findKey_cons]
    by_cases hk : k = e.1
    · subst hk
      by_cases hp : p e.1
      · simp [hp, findKey_cons]
      · simp [hp, ih]
    · by_cases hp : p e.1
      · simp [hp, findKey_cons, hk, ih]
      · simp [hp, hk, ih]

theorem findKey_eraseKey (k k' : K) (l : List (K × V)) :
    findKey k (eraseKey k' l) = if k = k' then none else findKey k l := by
  have := findKey_filter (fun x => decide (x ≠ k')) k l
  simp only [eraseKey, this]
  by_cases h : k = k' <;> simp [h]

theorem findKey_dropLast_of_some (h : findKey k l.dropLast = some v) : findKey k l = some v := by
  by_cases hl : l = []
  · subst hl
    exact h
  · rw [← List.dropLast_append_getLast hl, findKey_append, h]
    rfl

theorem keys_eraseKey (k : K) (l : List (K × V)) :
    (eraseKey k l).map Prod.fst = (l.map Prod.fst).filter (· ≠ k) := by
  simp only [eraseKey, List.filter_map]
  rfl

theorem eraseKey_of_notMem (h : k ∉ l.map Prod.fst) : eraseKey k l = l := by
  rw [eraseKey, List.filter_eq_self]
  intro e he
  simp only [ne_eq, decide_not, Bool.not_eq_eq_eq_not, Bool.not_true, decide_eq_false_iff_not]
  rintro rfl
  exact h (List.mem_map_of_mem he)

theorem eraseKey_sublist (k : K) (l : List (K × V)) : (eraseKey k l).Sublist l := List.filter_sublist

theorem length_eraseKey_lt (h : (k, v) ∈ l) : (eraseKey k l).length < l.length := by
  rw [eraseKey, List.length_filter_lt_length_iff_exists]
  exact ⟨_, h, by simp⟩

theorem nodup_eraseKey (h : (l.map Prod.fst).Nodup) : ((eraseKey k l).map Prod.fst).Nodup :=
  h.sublist ((eraseKey_sublist k l).map _)

theorem notMem_keys_eraseKey : k ∉ (eraseKey k l).map Prod.fst := by
  simp [keys_eraseKey]

theorem findKey_dropLast (hl : (l.map Prod.fst).Nodup) (hne : l ≠ []) :
    findKey k l.dropLast = if k = (l.getLast hne).1 then none else findKey k l := by
  obtain ⟨init, e, hinit⟩ : ∃ init e, l = init ++ [e] :=
    ⟨l.dropLast, l.getLast hne, (List.dropLast_append_getLast hne).symm⟩
  subst hinit
  rw [List.map_append, List.nodup_append] at hl
  simp only [List.dropLast_concat, List.getLast_concat, findKey_append, findKey_cons, findKey_nil]
  split_ifs with hk
  · rw [findKey_eq_none_iff]
    exact fun hmem => hl.2.2 k hmem e.1 (by simp) hk
  · rw [Option.or_none]

/-! ### Moving to the front -/

/-- Put an entry in front, in place of the one its key had. -/
def moveToFront (l : List (K × V)) (e : K × V) : List (K × V) := e :: eraseKey e.1 l

theorem findKey_moveToFront (h : findKey k l = some v) (k' : K) :
    findKey k' (moveToFront l (k, v)) = findKey k' l := by
  rw [moveToFront, findKey_cons, findKey_eraseKey]
  by_cases hk : k' = k
  · rw [if_pos hk, hk, h]
  · rw [if_neg hk, if_neg hk]

theorem foldl_moveToFront (l a : List (K × V)) :
    a.foldl moveToFront l = a.foldl moveToFront [] ++ l.filter fun e => e.1 ∉ a.map Prod.fst := by
  induction a using List.reverseRecOn with
  | nil => simp
  | append_singleton a e ih =>
    rw [List.foldl_concat, List.foldl_concat, ih, moveToFront, moveToFront, eraseKey, List.filter_append,
      List.filter_filter, List.cons_append, eraseKey]
    congr 2
    apply List.filter_congr
    intro e' _
    rw [Bool.eq_iff_iff]
    simp only [ne_eq, Bool.and_eq_true, decide_eq_true_eq, List.map_append, List.map_singleton,
      List.mem_append, List.mem_singleton, not_or, and_comm]

theorem mem_keys_of_mem_foldl_moveToFront {a : List (K × V)} {e : K × V}
    (h : e ∈ a.foldl moveToFront []) : e.1 ∈ a.map Prod.fst := by
  induction a using List.reverseRecOn with
  | nil => cases h
  | append_singleton a e' ih =>
    rw [List.foldl_concat, moveToFront, List.mem_cons] at h
    rw [List.map_append, List.mem_append]
    rcases h with rfl | h
    · exact .inr (by simp)
    · exact .inl (ih ((eraseKey_sublist _ _).subset h))

theorem foldl_moveToFront_idem (l a : List (K × V)) :
    a.foldl moveToFront (a.foldl moveToFront l) = a.foldl moveToFront l := by
  have hfront : (a.foldl moveToFront []).filter (fun e => e.1 ∉ a.map Prod.fst) = [] := by
    rw [List.filter_eq_nil_iff]
    intro e he
    simpa using mem_keys_of_mem_foldl_moveToFront he
  rw [foldl_moveToFront (a.foldl moveToFront l), foldl_moveToFront l, List.filter_append, hfront,
    List.nil_append, List.filter_filter]
  simp only [Bool.and_self]

end assoc

/-! ### The interface -/

/-- An LRU map limited by its number of entries. -/
class LruMap (M : Type) (K V : outParam Type) where
  /-- An empty map for at most so many entries. -/
  new : UInt32 → M
  /-- The number of entries. -/
  len : M → Nat
  /-- The limit the map was made with. -/
  maxLength : M → UInt32
  /-- Look a key up without using it. -/
  peek : M → K → Option V
  /-- Look a key up and use it. -/
  get : M → K → Option V × M
  /-- Put an entry in as the most recently used one; `false` if it is rejected. -/
  insert : M → K → V → Bool × M
  /-- Take an entry out. -/
  remove : M → K → Option V × M
  /-- All entries, in an order of the map's choosing. -/
  iter : M → List (K × V)
  /-- The entries from the most to the least recently used one. -/
  order : M → List (K × V)

/-- The operations do to `order` what an LRU map does: `peek` and `iter` only look, `get` and
`insert` move their key to the front, inserting a new key into a full map drops the entry at the
back, a limit of 0 rejects every new key, and `remove` unlinks its key only. -/
class LawfulLruMap (M : Type) {K V : Type} [DecidableEq K] [LruMap M K V] : Prop where
  nodup : ∀ m : M, ((LruMap.order m).map Prod.fst).Nodup
  order_new : ∀ c, LruMap.order (LruMap.new c : M) = []
  maxLength_new : ∀ c, LruMap.maxLength (LruMap.new c : M) = c
  len_eq : ∀ m : M, LruMap.len m = (LruMap.order m).length
  peek_eq : ∀ (m : M) (k : K), LruMap.peek m k = findKey k (LruMap.order m)
  iter_perm : ∀ m : M, (LruMap.iter m).Perm (LruMap.order m)
  order_get : ∀ (m : M) (k : K) (v : V), LruMap.peek m k = some v →
    LruMap.order (LruMap.get m k).2 = (k, v) :: eraseKey k (LruMap.order m)
  order_insert_rejected : ∀ (m : M) (k : K) (v : V), LruMap.peek m k = none →
    LruMap.maxLength m = 0 → LruMap.order (LruMap.insert m k v).2 = LruMap.order m
  order_insert_room : ∀ (m : M) (k : K) (v : V), LruMap.peek m k = none →
    LruMap.len m < (LruMap.maxLength m).toNat →
    LruMap.order (LruMap.insert m k v).2 = (k, v) :: LruMap.order m
  order_insert_full : ∀ (m : M) (k : K) (v : V), LruMap.peek m k = none →
    LruMap.maxLength m ≠ 0 → LruMap.len m = (LruMap.maxLength m).toNat →
    LruMap.order (LruMap.insert m k v).2 = (k, v) :: (LruMap.order m).dropLast
  order_remove : ∀ (m : M) (k : K), LruMap.order (LruMap.remove m k).2 = eraseKey k (LruMap.order m)
  maxLength_get : ∀ (m : M) (k : K), LruMap.maxLength (LruMap.get m k).2 = LruMap.maxLength m
  maxLength_insert : ∀ (m : M) (k : K) (v : V),
    LruMap.maxLength (LruMap.insert m k v).2 = LruMap.maxLength m
  maxLength_remove : ∀ (m : M) (k : K),
    LruMap.maxLength (LruMap.remove m k).2 = LruMap.maxLength m

/-! ### Recency lists -/

/-- An LRU map kept as its entries, most recently used first. -/
structure RecencyList (K V : Type) where
  limit : UInt32
  entries : List (K × V)
  nodup : (entries.map Prod.fst).Nodup

namespace RecencyList

variable {K V : Type} [DecidableEq K]

/-- Put an entry at the front. -/
def push (m : RecencyList K V) (k : K) (v : V) (l : List (K × V)) (hl : l.Sublist m.entries)
    (hk : k ∉ l.map Prod.fst) : RecencyList K V where
  limit := m.limit
  entries := (k, v) :: l
  nodup := List.nodup_cons.mpr ⟨hk, m.nodup.sublist (hl.map _)⟩

/-- Move a key to the front with a new value. -/
def use (m : RecencyList K V) (k : K) (v : V) : RecencyList K V :=
  m.push k v (eraseKey k m.entries) (eraseKey_sublist ..) notMem_keys_eraseKey

/-- `LruMap.insert` on recency lists. -/
def insert (m : RecencyList K V) (k : K) (v : V) : Bool × RecencyList K V :=
  if hk : k ∈ m.entries.map Prod.fst then (true, m.use k v)
  else if m.limit = 0 then (false, m)
  else if m.entries.length < m.limit.toNat then (true, m.push k v m.entries (.refl _) hk)
  else (true, m.push k v m.entries.dropLast (List.dropLast_sublist _)
    fun h => hk (((List.dropLast_sublist m.entries).map _).subset h))

instance : LruMap (RecencyList K V) K V where
  new c := ⟨c, [], by simp⟩
  len m := m.entries.length
  maxLength m := m.limit
  peek m k := findKey k m.entries
  get m k := match findKey k m.entries with
    | some v => (some v, m.use k v)
    | none => (none, m)
  insert := insert
  remove m k := (findKey k m.entries, ⟨m.limit, eraseKey k m.entries, nodup_eraseKey m.nodup⟩)
  iter m := m.entries
  order m := m.entries

instance : LawfulLruMap (RecencyList K V) where
  nodup m := m.nodup
  order_new _ := rfl
  maxLength_new _ := rfl
  len_eq _ := rfl
  peek_eq _ _ := rfl
  iter_perm _ := .refl _
  order_get m k v h := by
    have h' : findKey k m.entries = some v := h
    simp only [LruMap.get, h']
    rfl
  order_insert_rejected m k v h hmax := by
    have hk : k ∉ m.entries.map Prod.fst := findKey_eq_none_iff.mp h
    have hmax' : m.limit = 0 := hmax
    simp only [LruMap.insert, insert, dif_neg hk, if_pos hmax']
  order_insert_room m k v h hlen := by
    have hk : k ∉ m.entries.map Prod.fst := findKey_eq_none_iff.mp h
    have hlen' : m.entries.length < m.limit.toNat := hlen
    have hmax : m.limit ≠ 0 := by
      rintro h0
      simp [h0] at hlen'
    simp only [LruMap.insert, insert, dif_neg hk, if_neg hmax, if_pos hlen']
    rfl
  order_insert_full m k v h hmax hlen := by
    have hk : k ∉ m.entries.map Prod.fst := findKey_eq_none_iff.mp h
    have hmax' : m.limit ≠ 0 := hmax
    have hlen' : ¬ m.entries.length < m.limit.toNat := by
      have : m.entries.length = m.limit.toNat := hlen
      omega
    simp only [LruMap.insert, insert, dif_neg hk, if_neg hmax', if_neg hlen']
    rfl
  order_remove _ _ := rfl
  maxLength_get m k := by
    simp only [LruMap.get]
    cases findKey k m.entries <;> rfl
  maxLength_insert m k v := by
    simp only [LruMap.insert, insert]
    split_ifs <;> rfl
  maxLength_remove _ _ := rfl

end RecencyList

end IpfixParser.Lib

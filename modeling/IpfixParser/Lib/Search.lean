import IpfixParser.Lib.Outcome
import Mathlib.Data.List.Destutter
import Mathlib.Data.List.Sort

/-!
# Sorted tables

A table is prepared once, by sorting it and dropping the repetitions of a key, and searched by
halving from then on. What the preparation has to get right is here said about the first element
with a given key: sorting keeps it because the sort is stable, dropping repetitions keeps it
because the first of a run stays. The search needs the strict order that the two together give.
-/

namespace IpfixParser.Lib

variable {ε α κ : Type}

/-! ### Preparing a table -/

section prepare

variable [LinearOrder κ] (key : α → κ)

/-- `sort_by_key`: a stable sort. -/
def sortByKey (l : List α) : List α := l.insertionSort fun a b => key a ≤ key b

/-- `dedup_by_key`: all but the first of consecutive elements with one key go. -/
def dedupByKey (l : List α) : List α := l.destutter fun a b => key a ≠ key b

theorem find?_orderedInsert (k : κ) (a : α) (l : List α) :
    (l.orderedInsert (fun a b => key a ≤ key b) a).find? (key · = k) = (a :: l).find? (key · = k) := by
  induction l with
  | nil => rfl
  | cons b l ih =>
    rw [List.orderedInsert_cons]
    split_ifs with hle
    · rfl
    · rw [List.find?_cons, ih]
      by_cases hb : key b = k
      · have ha : key a ≠ k := fun ha => hle (ha.trans hb.symm).le
        simp [ha, hb]
      · simp only [hb, decide_false, List.find?_cons]

theorem find?_sortByKey (k : κ) (l : List α) :
    (sortByKey key l).find? (key · = k) = l.find? (key · = k) := by
  induction l with
  | nil => rfl
  | cons a l ih =>
    rw [sortByKey, List.insertionSort_cons, find?_orderedInsert, ← sortByKey, List.find?_cons, ih,
      List.find?_cons]

theorem find?_destutter' (k : κ) (a : α) (l : List α) :
    (l.destutter' (fun a b => key a ≠ key b) a).find? (key · = k) = (a :: l).find? (key · = k) := by
  induction l generalizing a with
  | nil => rfl
  | cons b l ih =>
    by_cases h : key a = key b
    · rw [List.destutter'_cons_neg _ (not_not.mpr h), ih]
      by_cases ha : key a = k
      · simp [ha]
      · simp [ha, h ▸ ha]
    · rw [List.destutter'_cons_pos _ h, List.find?_cons, ih, List.find?_cons (a := a)]

theorem find?_dedupByKey (k : κ) (l : List α) :
    (dedupByKey key l).find? (key · = k) = l.find? (key · = k) := by
  cases l with
  | nil => rfl
  | cons a l => exact find?_destutter' key k a l

theorem pairwise_sortByKey (l : List α) : (sortByKey key l).Pairwise (key · ≤ key ·) := by
  have : Std.Total fun a b : α => key a ≤ key b := ⟨fun a b => le_total (key a) (key b)⟩
  have : IsTrans α fun a b => key a ≤ key b := ⟨fun _ _ _ => le_trans⟩
  exact List.pairwise_insertionSort _ l

theorem pairwise_dedupByKey {l : List α} (h : l.Pairwise (key · ≤ key ·)) :
    (dedupByKey key l).Pairwise (key · < key ·) := by
  have : IsTrans α fun a b => key a < key b := ⟨fun _ _ _ => lt_trans⟩
  have hle : (dedupByKey key l).IsChain (key · ≤ key ·) :=
    (h.sublist (List.destutter_sublist _ l)).isChain
  have hne : (dedupByKey key l).IsChain (key · ≠ key ·) := List.isChain_destutter _ l
  rw [List.isChain_iff_getElem] at hle hne
  rw [← List.isChain_iff_pairwise, List.isChain_iff_getElem]
  exact fun i hi => lt_of_le_of_ne (hle i hi) (hne i hi)

end prepare

/-! ### Searching -/

section search

/-- The loop of `binary_search_by`: the `size` elements from `base` on are left. -/
def narrow (f : α → Ordering) (l : List α) : Nat → Nat → Nat → Outcome ε Nat
  | 0, base, _ => .ok base
  | fuel + 1, base, size =>
    if size ≤ 1 then .ok base
    else do
      let half := size / 2
      let mid := base + half
      let x ← index l mid
      -- No early exit on `.eq`: the number of turns depends on the length alone.
      narrow f l fuel (if f x = .gt then base else mid) (size - half)

/-- `binary_search_by`: the index of a match, or the index at which one could be inserted. -/
def binarySearchBy (f : α → Ordering) (l : List α) : Outcome ε (Except Nat Nat) :=
  if l.length = 0 then .ok (.error 0)
  else do
    let base ← narrow f l l.length 0 l.length
    let x ← index l base
    if f x = .eq then .ok (.ok base) else .ok (.error (base + if f x = .lt then 1 else 0))

/-- What the loop maintains: an element that is not too large stands at `base`, unless that is the
start, and only such that are too large stand after the window. -/
structure Bracket (f : α → Ordering) (l : List α) (base size : Nat) : Prop where
  pos : 0 < size
  le : base + size ≤ l.length
  low : 0 < base → ∃ x, l[base]? = some x ∧ f x ≠ .gt
  high : ∀ i x, base + size ≤ i → l[i]? = some x → f x = .gt

variable {f : α → Ordering} {l : List α}

theorem Bracket.start (h : l ≠ []) : Bracket f l 0 l.length where
  pos := List.length_pos_iff.mpr h
  le := by omega
  low := fun h => absurd h (by omega)
  high := fun i x hi hx => by
    rw [List.getElem?_eq_none (by omega)] at hx
    cases hx

theorem Bracket.turn {base size : Nat} (hf : l.Pairwise fun x y => f x = .gt → f y = .gt)
    (h : Bracket f l base size) (hsize : 1 < size) {x : α} (hx : l[base + size / 2]? = some x) :
    Bracket f l (if f x = .gt then base else base + size / 2) (size - size / 2) := by
  have hpos := h.pos
  have hle := h.le
  split_ifs with hgt
  · refine ⟨by omega, by omega, h.low, fun i y hi hy => ?_⟩
    rcases Nat.eq_or_lt_of_le (show base + size / 2 ≤ i by omega) with rfl | hlt
    · rw [hx] at hy
      cases hy
      exact hgt
    · obtain ⟨hmid, rfl⟩ := List.getElem?_eq_some_iff.mp hx
      obtain ⟨hi, rfl⟩ := List.getElem?_eq_some_iff.mp hy
      exact List.pairwise_iff_getElem.mp hf _ _ hmid hi hlt hgt
  · exact ⟨by omega, by omega, fun _ => ⟨x, hx, hgt⟩, fun i y hi hy => h.high i y (by omega) hy⟩

theorem Bracket.narrow (hf : l.Pairwise fun x y => f x = .gt → f y = .gt) {fuel base size : Nat}
    (h : Bracket f l base size) (hfuel : size ≤ fuel + 1) :
    ∃ b, (narrow f l fuel base size : Outcome ε Nat) = .ok b ∧ Bracket f l b 1 := by
  have hpos := h.pos
  induction fuel generalizing base size with
  | zero =>
    obtain rfl : size = 1 := by omega
    exact ⟨base, rfl, h⟩
  | succ fuel ih =>
    rw [Lib.narrow]
    split_ifs with hsize
    · obtain rfl : size = 1 := by omega
      exact ⟨base, rfl, h⟩
    · have hle := h.le
      have hx := List.getElem?_eq_getElem (show base + size / 2 < l.length by omega)
      have hturn := h.turn hf (by omega) hx
      simp only [index_eq hx, Outcome.ok_bind]
      exact ih hturn (by omega) hturn.pos

theorem find?_eq_of_mem [LinearOrder κ] {key : α → κ} (h : l.Pairwise (key · < key ·)) {x : α}
    (hx : x ∈ l) : l.find? (key · = key x) = some x := by
  induction l with
  | nil => cases hx
  | cons y l ih =>
    rw [List.pairwise_cons] at h
    rcases List.mem_cons.mp hx with rfl | hx
    · simp
    · rw [List.find?_cons_of_neg (by simpa using (h.1 x hx).ne), ih h.2 hx]

/-- On a strictly increasing table the search finds the element with the key, if there is one. -/
theorem binarySearchBy_cases [LinearOrder κ] {key : α → κ} (h : l.Pairwise (key · < key ·)) (k : κ) :
    (∃ i x, l[i]? = some x ∧ l.find? (key · = k) = some x ∧
        (binarySearchBy (fun x => compare (key x) k) l : Outcome ε _) = .ok (.ok i)) ∨
      (∃ i, (binarySearchBy (fun x => compare (key x) k) l : Outcome ε _) = .ok (.error i)) ∧
        l.find? (key · = k) = none := by
  have hf : l.Pairwise fun x y => compare (key x) k = .gt → compare (key y) k = .gt := by
    refine h.imp fun hxy hx => ?_
    rw [compare_gt_iff_gt] at hx ⊢
    exact hx.trans hxy
  rw [binarySearchBy]
  by_cases hl : l = []
  · subst hl
    exact .inr ⟨⟨0, rfl⟩, by simp⟩
  obtain ⟨b, hb, hbr⟩ := (Bracket.start (f := fun x => compare (key x) k) hl).narrow (ε := ε) hf
    (Nat.le_succ _)
  obtain ⟨x, hx⟩ : ∃ x, l[b]? = some x := ⟨_, List.getElem?_eq_getElem hbr.le⟩
  rw [if_neg (by simpa using hl), hb, Outcome.ok_bind, index_eq hx, Outcome.ok_bind]
  by_cases heq : compare (key x) k = .eq
  · obtain rfl := compare_eq_iff_eq.mp heq
    exact .inl ⟨b, x, hx, find?_eq_of_mem h (List.mem_of_getElem? hx), if_pos heq⟩
  · refine .inr ⟨⟨_, if_neg heq⟩, List.find?_eq_none.mpr fun y hy hk => ?_⟩
    replace hk : key y = k := by simpa using hk
    obtain ⟨j, hj⟩ := List.mem_iff_getElem?.mp hy
    rcases Nat.lt_trichotomy j b with hlt | rfl | hgt
    · -- Before `b` the keys are below the one there, which is not above `k`.
      obtain ⟨x', hx', hle⟩ := hbr.low (by omega)
      obtain rfl : x' = x := Option.some.inj (hx'.symm.trans hx)
      obtain ⟨hjl, rfl⟩ := List.getElem?_eq_some_iff.mp hj
      obtain ⟨hbl, rfl⟩ := List.getElem?_eq_some_iff.mp hx
      have hkey := List.pairwise_iff_getElem.mp h j b hjl hbl hlt
      exact hle (compare_gt_iff_gt.mpr (hk ▸ hkey))
    · rw [hx] at hj
      cases hj
      exact heq (compare_eq_iff_eq.mpr hk)
    · have := hbr.high j y hgt hj
      rw [compare_gt_iff_gt] at this
      exact this.ne' hk

end search

end IpfixParser.Lib

import IpfixParser.Proof.StoreHistory
import Mathlib.Data.Finset.Card
import Mathlib.Data.Finset.Dedup

/-!
# Retention and eviction in the template store

The table is sorted by how long ago each key had its last accepted insert (`sorted_after`), so the
entry dropped from a full store is the one whose last accepted insert is oldest; and a key can only
be dropped once as many other keys as the store holds have been accepted since (`retained_run`).
-/

namespace IpfixParser

open Lib

/-! ### Keys in order -/

section
variable {κ : Type} {key : κ} {front back : List κ}

/-- `keys` has `key`, and in front of it only keys of `front` and the accepted one. -/
def Ahead (key : κ) (front : List κ) (accepted : Option κ) (keys : List κ) : Prop :=
  ∃ front' back', keys = front' ++ key :: back' ∧
    ∀ k ∈ front', k ∈ front ∨ accepted = some k ∧ k ≠ key

theorem Ahead.same (accepted : Option κ) : Ahead key front accepted (front ++ key :: back) :=
  ⟨front, back, rfl, fun _ hk => .inl hk⟩

theorem Ahead.filter (accepted : Option κ) {p : κ → Bool} (hp : p key) :
    Ahead key front accepted ((front ++ key :: back).filter p) := by
  refine ⟨front.filter p, back.filter p, ?_, fun k hk => .inl (List.mem_of_mem_filter hk)⟩
  rw [List.filter_append, List.filter_cons_of_pos hp]

theorem Ahead.cons {keys : List κ} (h : Ahead key front none keys) {k : κ} (hk : k ≠ key) :
    Ahead key front (some k) (k :: keys) := by
  obtain ⟨front', back', rfl, hfront⟩ := h
  refine ⟨k :: front', back', rfl, fun k' hk' => ?_⟩
  rcases List.mem_cons.mp hk' with rfl | hk'
  · exact .inr ⟨rfl, hk⟩
  · exact .inl ((hfront k' hk').resolve_right (by simp))

end

variable {K : Type} [DecidableEq K]

namespace TableStep

variable {cap : UInt32} {l l' : Table K} {op : StoreOp K} {response : StoreResponse}
  {warnings : List Warning}

theorem keys_order (h : TableStep cap l op response warnings l') (hcap : cap ≠ 0) :
    (∃ key ks, acceptedKey op response = some key ∧ l'.map Prod.fst = key :: ks ∧
      ks.Sublist (l.map Prod.fst) ∧ key ∉ ks) ∨
    (acceptedKey op response = none ∧ (l'.map Prod.fst).Sublist (l.map Prod.fst)) := by
  cases h with
  | @refreshed s odid r t hsome hagrees =>
    exact .inl ⟨_, _, rfl, rfl, (eraseKey_sublist _ _).map _, notMem_keys_eraseKey⟩
  | collided => exact .inr ⟨rfl, .refl _⟩
  | rejected _ hcap0 => exact absurd hcap0 hcap
  | added hnone => exact .inl ⟨_, _, rfl, rfl, .refl _, findKey_eq_none_iff.mp hnone⟩
  | evicted hnone =>
    have hsub := (List.dropLast_sublist l).map Prod.fst
    exact .inl ⟨_, _, rfl, rfl, hsub, fun h => findKey_eq_none_iff.mp hnone (hsub.subset h)⟩
  | removed => exact .inr ⟨rfl, (eraseKey_sublist _ _).map _⟩
  | removedSession => exact .inr ⟨rfl, List.filter_sublist.map _⟩
  | looked => exact .inr ⟨rfl, .refl _⟩

theorem keys_ahead (h : TableStep cap l op response warnings l') {key : TemplateKey K}
    {front back : List (TemplateKey K)} (hl : l.map Prod.fst = front ++ key :: back)
    (hrem : ¬ op.Removes key)
    (hroom : ∀ k, acceptedKey op response = some k → k ∉ front → k ≠ key →
      front.length + 1 < cap.toNat) :
    Ahead key front (acceptedKey op response) (l'.map Prod.fst) := by
  cases h with
  | @refreshed s odid r t hsome hagrees =>
    rw [List.map_cons, keys_eraseKey]
    by_cases hkey : (s, odid, r.id) = key
    · exact ⟨[], _, congrArg (· :: _) hkey, by simp⟩
    · rw [hl]
      exact (Ahead.filter none (by simpa using Ne.symm hkey)).cons hkey
  | collided => exact hl ▸ .same _
  | rejected => exact hl ▸ .same _
  | @added s odid r hnone _ =>
    have hnew := findKey_eq_none_iff.mp hnone
    rw [hl] at hnew
    rw [List.map_cons, hl]
    exact (Ahead.same none).cons fun h => hnew (by simp [h])
  | @evicted s odid r hnone _ hfull =>
    have hnew := findKey_eq_none_iff.mp hnone
    rw [hl] at hnew
    have hne : (s, odid, r.id) ≠ key := fun h => hnew (by simp [h])
    -- the store is full and too few keys are in front of `key`, so it is not the last one
    have hback : back ≠ [] := by
      rintro rfl
      have hlen := congrArg List.length hl
      have hroom := hroom _ rfl (fun h => hnew (by simp [h])) hne
      simp only [List.length_map, List.length_append, List.length_cons, List.length_nil] at hlen
      omega
    rw [List.map_cons, List.map_dropLast, hl, List.dropLast_append_of_ne_nil (by simp),
      List.dropLast_cons_of_ne_nil hback]
    exact (Ahead.same none).cons hne
  | @removed s odid id =>
    have hne : key ≠ (s, odid, id) := by
      rintro rfl
      exact hrem (.inl rfl)
    rw [keys_eraseKey, hl]
    exact .filter _ (by simpa using hne)
  | @removedSession s =>
    have hne : key.1 ≠ s := by
      rintro rfl
      exact hrem (.inr rfl)
    have hkeys : (l.filter fun e => decide (e.1.1 ≠ s)).map Prod.fst =
        (l.map Prod.fst).filter fun k => decide (k.1 ≠ s) := by
      rw [List.filter_map]
      rfl
    rw [hkeys, hl]
    exact .filter _ (by simpa using hne)
  | looked => exact hl ▸ .same _

theorem evicts_last {s : K} {odid : UInt32} {r : TemplateRecord}
    (h : TableStep cap l (.insert s odid r) (.outcome .inserted) warnings l') (hcap : cap ≠ 0)
    (hfull : l.length = cap.toNat) :
    warnings = [evictionWarning cap] ∧ (s, odid, r.id) ∉ l.map Prod.fst ∧
      l' = ((s, odid, r.id), .ofRecord r) :: l.dropLast := by
  cases h with
  | rejected _ hcap0 => exact absurd hcap0 hcap
  | added _ hroom => omega
  | evicted hnone => exact ⟨rfl, findKey_eq_none_iff.mp hnone, rfl⟩

theorem insert_keeps {s : K} {odid : UInt32} {r : TemplateRecord}
    (h : TableStep cap l (.insert s odid r) response warnings l')
    (hnot : ¬ (response = .outcome .inserted ∧ l.length = cap.toNat)) {key : TemplateKey K}
    {t : OwnedTemplate} (ht : findKey key l = some t) : findKey key l' = some t := by
  rcases h.keeps ht (by simp [StoreOp.Removes]) with h | ⟨-, hresp, hfull, -⟩
  · exact h
  · exact absurd ⟨hresp, hfull⟩ hnot

theorem insert_silent {s : K} {odid : UInt32} {r : TemplateRecord}
    (h : TableStep cap l (.insert s odid r) response warnings l')
    (hnot : ¬ (response = .outcome .inserted ∧ l.length = cap.toNat)) : warnings = [] := by
  cases h with
  | evicted _ _ hfull => exact absurd ⟨rfl, hfull⟩ hnot
  | refreshed => rfl
  | collided => rfl
  | rejected => rfl
  | added => rfl

end TableStep

namespace SessionTemplateStore

variable {M : Type}

/-- The key of an event that is an accepted insert. -/
def Event.acceptedKey (e : Event M K) : Option (TemplateKey K) :=
  IpfixParser.acceptedKey e.op e.response

/-- How many events have passed since the last accepted insert of a key. -/
def age (evs : List (Event M K)) (key : TemplateKey K) : Nat :=
  evs.reverse.findIdx fun e => e.acceptedKey = some key

/-- The keys other than `key` with an accepted insert. -/
def rivals (key : TemplateKey K) (evs : List (Event M K)) : Finset (TemplateKey K) :=
  (evs.filterMap Event.acceptedKey).toFinset.erase key

theorem age_concat (evs : List (Event M K)) (e : Event M K) (key : TemplateKey K) :
    age (evs ++ [e]) key = if e.acceptedKey = some key then 0 else age evs key + 1 := by
  simp only [age, List.reverse_append, List.reverse_cons, List.reverse_nil, List.nil_append,
    List.cons_append, List.findIdx_cons, Bool.cond_decide]

theorem age_concat_of_ne (evs : List (Event M K)) {e : Event M K} {key : TemplateKey K}
    (h : e.acceptedKey ≠ some key) : age (evs ++ [e]) key = age evs key + 1 := by
  rw [age_concat, if_neg h]

theorem mem_rivals {key k : TemplateKey K} {evs : List (Event M K)} :
    k ∈ rivals key evs ↔ k ≠ key ∧ ∃ e ∈ evs, e.acceptedKey = some k := by
  simp [rivals]

variable [LruMap M (TemplateKey K) OwnedTemplate] [LawfulLruMap M] {c : UInt32} {key : TemplateKey K}

/-- The table is sorted by age, and every stored key has had an accepted insert. -/
theorem sorted_after (hc : c ≠ 0) (ops : List (StoreOp K)) :
    ((after M c ops).table.map Prod.fst).Pairwise
        (fun k k' => age (history M c ops) k < age (history M c ops) k') ∧
      ∀ k ∈ (after M c ops).table.map Prod.fst, age (history M c ops) k < (history M c ops).length := by
  induction ops using List.reverseRecOn with
  | nil => simp [after, run]
  | append_singleton ops op ih =>
    obtain ⟨hsorted, hbound⟩ := ih
    rw [after, run_concat, history, events_concat]
    set e := (after M c ops).event op with he
    have hstep := event_table (M := M) c ops op
    have hlen : (history M c ops ++ [e]).length = (history M c ops).length + 1 := by simp
    rcases hstep.keys_order hc with ⟨key, ks, hacc, hkeys, hsub, hnew⟩ | ⟨hacc, hsub⟩
    · have hacc' : e.acceptedKey = some key := hacc
      have hage : ∀ k ∈ ks, age (history M c ops ++ [e]) k = age (history M c ops) k + 1 := by
        intro k hk
        refine age_concat_of_ne _ ?_
        rw [hacc']
        rintro ⟨⟩
        exact hnew hk
      have hzero : age (history M c ops ++ [e]) key = 0 := by rw [age_concat, if_pos hacc']
      rw [hkeys, List.pairwise_cons]
      refine ⟨⟨fun k hk => ?_, ?_⟩, fun k hk => ?_⟩
      · rw [hzero, hage k hk]
        omega
      · refine (hsorted.sublist hsub).imp_of_mem fun {k k'} hk hk' hlt => ?_
        rw [hage k hk, hage k' hk']
        omega
      · rw [hlen]
        rcases List.mem_cons.mp hk with rfl | hk
        · rw [hzero]
          omega
        · rw [hage k hk]
          have := hbound k (hsub.subset hk)
          omega
    · have hacc' : e.acceptedKey = none := hacc
      have hage : ∀ k, age (history M c ops ++ [e]) k = age (history M c ops) k + 1 := fun k =>
        age_concat_of_ne _ (by simp [hacc'])
      refine ⟨(hsorted.sublist hsub).imp fun {k k'} hlt => ?_, fun k hk => ?_⟩
      · rw [hage, hage]
        omega
      · rw [hlen, hage]
        have := hbound k (hsub.subset hk)
        omega

/-- While fewer than `c` other keys have been accepted, a key stays, and only they can be in front of
it. -/
theorem retained_run (ops₁ : List (StoreOp K)) {back : List (TemplateKey K)}
    (hstart : (after M c ops₁).table.map Prod.fst = key :: back) (ops₂ : List (StoreOp K))
    (hrem : ∀ e ∈ (after M c ops₁).events ops₂, ¬ e.op.Removes key)
    (hrivals : (rivals key ((after M c ops₁).events ops₂)).card < c.toNat) :
    ∃ front back, (after M c (ops₁ ++ ops₂)).table.map Prod.fst = front ++ key :: back ∧
      ∀ k ∈ front, k ∈ rivals key ((after M c ops₁).events ops₂) := by
  induction ops₂ using List.reverseRecOn with
  | nil => exact ⟨[], back, by simpa using hstart, by simp⟩
  | append_singleton ops₂ op ih =>
    rw [events_concat] at hrem hrivals
    rw [events_concat]
    set evs := (after M c ops₁).events ops₂ with hevs
    have hmono : rivals key evs ⊆ rivals key (evs ++ [((after M c ops₁).run ops₂).event op]) := by
      intro k hk
      obtain ⟨hne, e, he, hacc⟩ := mem_rivals.mp hk
      exact mem_rivals.mpr ⟨hne, e, List.mem_append_left _ he, hacc⟩
    obtain ⟨front, back, hkeys, hfront⟩ := ih (fun e he => hrem e (List.mem_append_left _ he))
      (Nat.lt_of_le_of_lt (Finset.card_le_card hmono) hrivals)
    have hlast := hrem _ (List.mem_append_right _ (List.mem_singleton_self _))
    rw [← run_append] at hrivals hlast hmono ⊢
    have hstep := event_table (M := M) c (ops₁ ++ ops₂) op
    have hnodup : front.Nodup := by
      have := nodup_table (after M c (ops₁ ++ ops₂))
      rw [hkeys] at this
      exact (List.nodup_append.mp this).1
    -- a new key accepted now is a rival that was not in front of `key` yet
    have hroom : ∀ k, acceptedKey op ((after M c (ops₁ ++ ops₂)).step op).1 = some k → k ∉ front →
        k ≠ key → front.length + 1 < c.toNat := by
      intro k hacc hk hne
      have hsub : (k :: front).toFinset ⊆
          rivals key (evs ++ [(after M c (ops₁ ++ ops₂)).event op]) := by
        intro k' hk'
        rcases List.mem_cons.mp (List.mem_toFinset.mp hk') with rfl | hk'
        · exact mem_rivals.mpr ⟨hne, _, List.mem_append_right _ (List.mem_singleton_self _), hacc⟩
        · exact hmono (hfront k' hk')
      have hcard := Finset.card_le_card hsub
      rw [List.toFinset_card_of_nodup (List.nodup_cons.mpr ⟨hk, hnodup⟩), List.length_cons] at hcard
      exact Nat.lt_of_le_of_lt hcard hrivals
    obtain ⟨front', back', hkeys', hfront'⟩ := hstep.keys_ahead hkeys hlast hroom
    refine ⟨front', back', ?_, fun k hk => ?_⟩
    · rw [← List.append_assoc, after, run_concat]
      exact hkeys'
    · rcases hfront' k hk with hk | ⟨hacc, hne⟩
      · exact hmono (hfront k hk)
      · exact mem_rivals.mpr ⟨hne, _, List.mem_append_right _ (List.mem_singleton_self _), hacc⟩

theorem evicted_oldest (hc : c ≠ 0) {ops : List (StoreOp K)} {s : K} {odid : UInt32}
    {r : TemplateRecord} {warnings : List Warning} {st' : SessionTemplateStore M}
    (hstep : TableStep c (after M c ops).table (.insert s odid r) (.outcome .inserted) warnings st'.table)
    (hfull : (after M c ops).len = c.toNat) :
    ∃ victim ≠ (s, odid, r.id), ((after M c ops).lookup victim).isSome ∧
      (∀ k ≠ (s, odid, r.id),
        st'.lookup k = if k = victim then none else (after M c ops).lookup k) ∧
      age (history M c ops) victim < (history M c ops).length ∧
      ∀ k, ((after M c ops).lookup k).isSome → k ≠ victim →
        age (history M c ops) k < age (history M c ops) victim := by
  obtain ⟨hsorted, hbound⟩ := sorted_after (M := M) hc ops
  rw [len_eq] at hfull
  obtain ⟨-, hnew, htable⟩ := hstep.evicts_last hc hfull
  have hne : (after M c ops).table ≠ [] := by
    intro hnil
    rw [hnil] at hfull
    exact hc (UInt32.toNat_inj.mp hfull.symm)
  set victim := ((after M c ops).table.getLast hne).1 with hvictim
  have hstored : victim ∈ (after M c ops).table.map Prod.fst :=
    List.mem_map_of_mem (List.getLast_mem hne)
  refine ⟨victim, fun h => hnew (h ▸ hstored), mem_keys_iff.mp hstored, fun k hk => ?_,
    hbound _ hstored, fun k hk hkv => ?_⟩
  · rw [lookup_eq, lookup_eq, htable, findKey_cons, if_neg hk, findKey_dropLast (nodup_table _) hne]
    split_ifs <;> rfl
  · have hkeys : (after M c ops).table.map Prod.fst =
        (after M c ops).table.dropLast.map Prod.fst ++ [victim] := by
      conv_lhs => rw [← List.dropLast_append_getLast hne, List.map_append]
      rfl
    rw [hkeys, List.pairwise_append] at hsorted
    have hmem := mem_keys_iff.mpr hk
    rw [hkeys, List.mem_append, List.mem_singleton] at hmem
    exact hsorted.2.2 k (hmem.resolve_right hkv) victim (List.mem_singleton_self _)

theorem retained (hc : c ≠ 0) {ops : List (StoreOp K)} {pre post : List (Event M K)} {e : Event M K}
    (hevs : history M c ops = pre ++ e :: post) (hacc : e.acceptedKey = some key)
    (hrem : ∀ e' ∈ post, ¬ e'.op.Removes key) (hrivals : (rivals key post).card < c.toNat) :
    ((after M c ops).lookup key).isSome := by
  obtain ⟨ops₁, ops₂, -, he, hafter, hpost, hops⟩ := before_of_history hevs
  have hstep := event_table (M := M) c ops₁ e.op
  rw [hafter] at hpost
  have hacc' : acceptedKey e.op ((after M c ops₁).step e.op).1 = some key := by
    rw [he] at hacc
    exact hacc
  rcases hstep.keys_order hc with ⟨key', back, hkey', hkeys, -⟩ | ⟨hnone, -⟩
  · obtain rfl : key' = key := by simpa [hkey'] using hacc'
    rw [← run_concat] at hkeys
    rw [hpost] at hrem hrivals
    obtain ⟨front, back', hfinal, -⟩ := retained_run (ops₁ ++ [e.op]) hkeys ops₂ hrem hrivals
    have hsplit : ops = ops₁ ++ [e.op] ++ ops₂ := by simp [hops]
    rw [hsplit, ← mem_keys_iff, hfinal]
    simp
  · simp [hnone] at hacc'

/-- The store holds at most `c` entries, drops the one whose last accepted insert is oldest, and only to
make room for a new key. -/
theorem lru_retention (M : Type) [LruMap M (TemplateKey K) OwnedTemplate] [LawfulLruMap M]
    (c : UInt32) (ops : List (StoreOp K)) :
    (after M c ops).len ≤ c.toNat ∧
    (c ≠ 0 →
      (∀ (pre post : List (Event M K)) (e : Event M K) (s : K) (odid : UInt32) (r : TemplateRecord),
        history M c ops = pre ++ e :: post → e.op = .insert s odid r →
        (e.response = .outcome .inserted → e.before.len = c.toNat →
          e.warnings = [evictionWarning c] ∧
          ∃ victim ≠ (s, odid, r.id), (e.before.lookup victim).isSome ∧
            (∀ k ≠ (s, odid, r.id),
              e.after.lookup k = if k = victim then none else e.before.lookup k) ∧
            age pre victim < pre.length ∧
            ∀ k, (e.before.lookup k).isSome → k ≠ victim → age pre k < age pre victim) ∧
        (¬ (e.response = .outcome .inserted ∧ e.before.len = c.toNat) →
          e.warnings = [] ∧ ∀ k t, e.before.lookup k = some t → e.after.lookup k = some t)) ∧
      (∀ e ∈ history M c ops,
        (∃ s odid id, e.op = .get s odid id) ∨ e.response = .outcome .collision →
        e.after = e.before) ∧
      (∀ (pre post : List (Event M K)) (e : Event M K) (key : TemplateKey K),
        history M c ops = pre ++ e :: post → e.acceptedKey = some key →
        (∀ e' ∈ post, ¬ e'.op.Removes key) → (rivals key post).card < c.toNat →
        ((after M c ops).lookup key).isSome)) := by
  refine ⟨?_, fun hc => ⟨fun pre post e s odid r hevs hop => ⟨fun hresp hfull => ?_, fun hnot => ?_⟩,
    fun e he hlook => ?_, fun pre post e key hevs hacc hrem hrivals => ?_⟩⟩
  · rw [len_eq]
    exact length_run_withCapacity c ops
  · have hmem : e ∈ history M c ops := by simp [hevs]
    have hstep := events_table hmem
    obtain ⟨ops₁, -, hpre, he, -⟩ := before_of_history hevs
    have hbefore : e.before = after M c ops₁ := by rw [he]; rfl
    rw [hop, hresp] at hstep
    refine ⟨(hstep.evicts_last hc (by rw [← len_eq, hfull])).1, ?_⟩
    rw [hbefore] at hstep hfull ⊢
    rw [← hpre]
    exact evicted_oldest hc hstep hfull
  · have hmem : e ∈ history M c ops := by simp [hevs]
    have hstep := events_table hmem
    rw [hop] at hstep
    rw [len_eq] at hnot
    refine ⟨hstep.insert_silent hnot, fun k t ht => ?_⟩
    rw [lookup_eq_some_iff] at ht ⊢
    exact hstep.insert_keeps hnot ht
  · obtain ⟨pre, post, hevs⟩ := List.append_of_mem he
    obtain ⟨ops₁, -, -, he', -⟩ := before_of_history hevs
    rw [he'] at hlook ⊢
    exact after_eq_before _ _ hlook
  · exact retained hc hevs hacc hrem hrivals

theorem lru_retention_refreshed :
    let r : TemplateRecord := ⟨256, 0, [⟨8, none, 4⟩]⟩
    let ops : List (StoreOp Nat) := [.insert 0 1 r, .insert 1 1 r, .insert 0 1 r, .insert 2 1 r]
    ((after (RecencyList (TemplateKey Nat) OwnedTemplate) 2 ops).lookup (0, 1, 256)).isSome := by
  intro r ops
  have h := lru_retention (K := Nat) (RecencyList (TemplateKey Nat) OwnedTemplate) 2 ops
  obtain ⟨-, -, hretain⟩ := h.2 (by decide)
  refine hretain ((after _ 2 []).events (ops.take 2)) ((after _ 2 (ops.take 3)).events (ops.drop 3))
    ((after _ 2 (ops.take 2)).event (.insert 0 1 r)) (0, 1, 256) rfl rfl ?_ (by decide)
  rintro e (_ | ⟨_, ⟨⟩⟩)
  simp [StoreOp.Removes, event, ops]

end SessionTemplateStore

end IpfixParser

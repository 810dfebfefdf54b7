import IpfixParser.Lib.Outcome

/-!
# Pull iterators

A pull iterator is its `next` function on a state. `call next k` is the result of its `k`-th call,
`Yields next s l` says that the calls return the items of `l` in order and `None` ever after, and
`forLoop` is Rust's `for`/`while let Some(..)` over the iterator, with a bound on the number of
calls. Facts about all calls come from an invariant of the state (`call_spec`).
-/

namespace IpfixParser.Lib

variable {σ α β : Type}

/-- `Iterator::next`: the item, if any, and the iterator's new state. -/
abbrev Next (σ α : Type) := σ → Outcome Empty (Option α × σ)

/-- The result of the `k`-th call of `next`, counted from 0. -/
def call (next : Next σ α) : Nat → σ → Outcome Empty (Option α)
  | 0, s => do
    let (item, _) ← next s
    return item
  | k + 1, s => do
    let (_, s') ← next s
    call next k s'

/-- Successive calls return the items of `l` and then only `None`. -/
def Yields (next : Next σ α) (s : σ) (l : List α) : Prop := ∀ k, call next k s = .ok l[k]?

/-- `for item in iter { acc = body(acc, item) }`, giving up after `fuel` calls. -/
def forLoop (next : Next σ α) (body : β → α → Outcome Empty β) :
    Nat → σ → β → Outcome Empty (Option β)
  | 0, _, _ => .ok none
  | fuel + 1, s, acc => do
    match ← next s with
    | (none, _) => return some acc
    | (some item, s') =>
      let acc' ← body acc item
      forLoop next body fuel s' acc'

/-- A loop over an iterator that has to end within `fuel` turns. -/
def whileLet (next : Next σ α) (body : β → α → Outcome Empty β) (fuel : Nat) (s : σ) (acc : β) :
    Outcome Empty β := do
  match ← forLoop next body fuel s acc with
  | some acc' => return acc'
  | none => .panic

/-- The states that calls of `next` lead to. -/
inductive Reaches (next : Next σ α) (s : σ) : σ → Prop
  | refl : Reaches next s s
  | step {s' s'' x} : Reaches next s s' → next s' = .ok (x, s'') → Reaches next s s''

variable {next : Next σ α} {s s' : σ} {a : α} {l : List α}

theorem Reaches.inv (Inv : σ → Prop) (hnext : ∀ {s x s'}, Inv s → next s = .ok (x, s') → Inv s')
    (h : Reaches next s s') (hs : Inv s) : Inv s' := by
  induction h with
  | refl => exact hs
  | step _ hcall ih => exact hnext ih hcall

theorem call_succ_of_next {x : Option α} (h : next s = .ok (x, s')) (k : Nat) :
    call next (k + 1) s = call next k s' := by
  simp [call, h]

theorem call_zero_of_next {x : Option α} (h : next s = .ok (x, s')) :
    call next 0 s = .ok x := by
  simp [call, h]

theorem Yields.cons (h : next s = .ok (some a, s')) (hs' : Yields next s' l) :
    Yields next s (a :: l) := by
  intro k
  cases k with
  | zero => exact call_zero_of_next h
  | succ k =>
    rw [call_succ_of_next h]
    exact hs' k

theorem Yields.nil {Done : σ → Prop} (hdone : ∀ s, Done s → ∃ s', next s = .ok (none, s') ∧ Done s')
    (hs : Done s) : Yields next s [] := by
  intro k
  induction k generalizing s with
  | zero =>
    obtain ⟨s', h, _⟩ := hdone s hs
    exact call_zero_of_next h
  | succ k ih =>
    obtain ⟨s', h, hs'⟩ := hdone s hs
    rw [call_succ_of_next h]
    exact ih hs'

theorem Yields.unique {l' : List α} (h : Yields next s l) (h' : Yields next s l') : l = l' := by
  apply List.ext_getElem?
  intro k
  have := (h k).symm.trans (h' k)
  simpa using this

theorem Yields.tail (h : Yields next s (a :: l)) :
    ∃ s', next s = .ok (some a, s') ∧ Yields next s' l := by
  have h0 := h 0
  obtain ⟨⟨x, s'⟩, hx, hitem⟩ := Outcome.bind_eq_ok.mp h0
  obtain rfl : x = some a := by simpa using hitem
  refine ⟨s', hx, fun k => ?_⟩
  rw [← call_succ_of_next hx]
  simpa using h (k + 1)

theorem Yields.next_none (h : Yields next s []) : ∃ s', next s = .ok (none, s') := by
  obtain ⟨⟨x, s'⟩, hx, hitem⟩ := Outcome.bind_eq_ok.mp (h 0)
  obtain rfl : x = none := by simpa using hitem
  exact ⟨s', hx⟩

/-- What an invariant of the state says about each item says so about every call. -/
theorem call_spec {Inv : σ → Prop} {P : Option α → Prop}
    (hnext : ∀ s, Inv s → ∃ x s', next s = .ok (x, s') ∧ P x ∧ Inv s') (hs : Inv s) (k : Nat) :
    ∃ x, call next k s = .ok x ∧ P x := by
  induction k generalizing s with
  | zero =>
    obtain ⟨x, s', h, hx, _⟩ := hnext s hs
    exact ⟨x, call_zero_of_next h, hx⟩
  | succ k ih =>
    obtain ⟨x, s', h, _, hs'⟩ := hnext s hs
    rw [call_succ_of_next h]
    exact ih hs'

theorem call_congr {next' : Next σ α} (Inv : σ → Prop) (hsame : ∀ s, Inv s → next s = next' s)
    (hnext : ∀ {s x s'}, Inv s → next s = .ok (x, s') → Inv s') (hs : Inv s) (k : Nat) :
    call next k s = call next' k s := by
  induction k generalizing s with
  | zero => simp only [call, hsame s hs]
  | succ k ih =>
    simp only [call, ← hsame s hs]
    cases h : next s with
    | ok x => exact ih (hnext hs h)
    | err e => exact e.elim
    | panic => rfl

/-- A `for` loop with enough fuel runs its body on the yielded items, in order. -/
theorem forLoop_eq {body : β → α → Outcome Empty β} (h : Yields next s l) {fuel : Nat}
    (hfuel : l.length < fuel) (acc : β) :
    forLoop next body fuel s acc = (do return some (← l.foldlM body acc)) := by
  induction l generalizing s fuel acc with
  | nil =>
    obtain ⟨fuel, rfl⟩ := Nat.exists_eq_add_one_of_ne_zero (Nat.pos_iff_ne_zero.mp hfuel)
    obtain ⟨s', hs'⟩ := h.next_none
    simp [forLoop, hs']
  | cons a l ih =>
    obtain ⟨fuel, rfl⟩ := Nat.exists_eq_add_one_of_ne_zero (Nat.pos_iff_ne_zero.mp (by omega : 0 < fuel))
    obtain ⟨s', hs', hl⟩ := h.tail
    simp only [forLoop, hs', Outcome.ok_bind, List.foldlM_cons]
    cases body acc a with
    | ok acc' => exact ih hl (by simpa using hfuel) acc'
    | err e => exact e.elim
    | panic => rfl

theorem whileLet_eq {body : β → α → Outcome Empty β} (h : Yields next s l) {fuel : Nat}
    (hfuel : l.length < fuel) (acc : β) : whileLet next body fuel s acc = l.foldlM body acc := by
  rw [whileLet, forLoop_eq h hfuel]
  cases l.foldlM body acc <;> rfl

theorem whileLet_push {γ ι : Type} {is : List ι} {item : ι → α} {g : ι → γ}
    {body : List γ → α → Outcome Empty (List γ)} (h : Yields next s (is.map item)) {fuel : Nat}
    (hfuel : is.length < fuel) (hbody : ∀ i ∈ is, ∀ acc, body acc (item i) = .ok (acc ++ [g i])) :
    whileLet next body fuel s [] = .ok (is.map g) := by
  rw [whileLet_eq h (by simpa using hfuel), List.foldlM_map, Outcome.foldlM_push hbody,
    List.nil_append]

end IpfixParser.Lib

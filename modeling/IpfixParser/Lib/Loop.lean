import IpfixParser.Lib.Framing

/-!
# Loops that break

`breakLoop` is Rust's `for`/`while let Some(..)` over a pull iterator whose body may `break`, with the
iterator that it leaves behind. Loops that call each other share one bound on the number of calls; a
loop that exceeds it is `Unfinished`, so a loop that never ends is one that is not `ok` for any bound.
On an iterator that yields a list the loop is the `forIn` of that list (`breakLoop_eq`), and over the
frames of a buffer, where an error is the last item, it makes no difference whether the body breaks at
an error (`Frames.forIn_eq`).
-/

namespace IpfixParser.Lib

variable {σ α β γ ε ε' : Type}

/-- A loop had to give up. -/
inductive Unfinished where
  | outOfFuel
  deriving Repr, DecidableEq

/-- Code that has no `Err` of its own, called from code that has. -/
def Outcome.lift : Outcome Empty α → Outcome ε α
  | ok a => ok a
  | err e => e.elim
  | panic => panic

@[simp] theorem Outcome.lift_ok (a : α) : (lift (ok a) : Outcome ε α) = ok a := rfl

instance : LawfulMonad (Outcome ε) :=
  LawfulMonad.mk' (Outcome ε)
    (by intro α x; cases x <;> rfl)
    (by intros; rfl)
    (by intro α β γ x f g; cases x <;> rfl)

/-- `for item in iter { .. }` with `break`: the accumulator and the iterator at the end. -/
def breakLoop (next : Next σ α) (body : α → β → Outcome Unfinished (ForInStep β)) :
    Nat → σ → β → Outcome Unfinished (β × σ)
  | 0, _, _ => .err .outOfFuel
  | fuel + 1, s, acc => do
    match ← (next s).lift with
    | (none, s') => return (acc, s')
    | (some item, s') =>
      match ← body item acc with
      | .done acc' => return (acc', s')
      | .yield acc' => breakLoop next body fuel s' acc'

section loop

variable {next : Next σ α} {body : α → β → Outcome Unfinished (ForInStep β)} {s : σ} {l : List α}

theorem Reaches.trans {s' s'' : σ} (h : Reaches next s s') (h' : Reaches next s' s'') :
    Reaches next s s'' := by
  induction h' with
  | refl => exact h
  | step _ hcall ih => exact .step ih hcall

/-- On an iterator that yields a list, the loop is the loop over the list. -/
theorem breakLoop_eq (body : α → β → Outcome Unfinished (ForInStep β)) (h : Yields next s l) {fuel : Nat}
    (hfuel : l.length < fuel) (acc : β) :
    ∃ s', Reaches next s s' ∧ breakLoop next body fuel s acc = do
      let acc' ← forIn l acc body
      return (acc', s') := by
  induction l generalizing s fuel acc with
  | nil =>
    obtain ⟨fuel, rfl⟩ := Nat.exists_eq_add_one_of_ne_zero (Nat.ne_of_gt hfuel)
    obtain ⟨s', hs'⟩ := h.next_none
    refine ⟨s', .step .refl hs', ?_⟩
    simp [breakLoop, hs']
  | cons a l ih =>
    obtain ⟨fuel, rfl⟩ := Nat.exists_eq_add_one_of_ne_zero (by omega : fuel ≠ 0)
    obtain ⟨s', hs', hl⟩ := h.tail
    have hstep : Reaches next s s' := .step .refl hs'
    simp only [breakLoop, hs', Outcome.lift_ok, Outcome.ok_bind, List.forIn_cons]
    cases hbody : body a acc with
    | err e => exact ⟨s', hstep, rfl⟩
    | panic => exact ⟨s', hstep, rfl⟩
    | ok turn =>
      cases turn with
      | done acc' => exact ⟨s', hstep, rfl⟩
      | yield acc' =>
        obtain ⟨s'', hreach, hrest⟩ := ih hl (by simpa using hfuel) acc'
        refine ⟨s'', hstep.trans hreach, ?_⟩
        simpa using hrest

theorem breakLoop_mono {body' : α → β → Outcome Unfinished (ForInStep β)}
    (hbody : ∀ a acc turn, body a acc = .ok turn → body' a acc = .ok turn) {fuel fuel' : Nat}
    (hle : fuel ≤ fuel') {acc : β} {x : β × σ} (h : breakLoop next body fuel s acc = .ok x) :
    breakLoop next body' fuel' s acc = .ok x := by
  induction fuel generalizing fuel' s acc with
  | zero => simp [breakLoop] at h
  | succ fuel ih =>
    obtain ⟨fuel', rfl⟩ := Nat.exists_eq_add_one_of_ne_zero (by omega : fuel' ≠ 0)
    rw [breakLoop] at h ⊢
    obtain ⟨⟨item, s'⟩, hs', h⟩ := Outcome.bind_eq_ok.mp h
    rw [hs', Outcome.ok_bind]
    cases item with
    | none => exact h
    | some a =>
      obtain ⟨turn, hturn, h⟩ := Outcome.bind_eq_ok.mp h
      simp only [hbody a acc turn hturn, Outcome.ok_bind]
      cases turn with
      | done acc' => exact h
      | yield acc' => exact ih (by omega) h

theorem breakLoop_ne_ok {a : α} (hitems : ∀ k, call next k s = .ok (some a))
    (hbody : ∀ acc acc', body a acc ≠ .ok (.done acc')) (fuel : Nat) (acc : β) (x : β × σ) :
    breakLoop next body fuel s acc ≠ .ok x := by
  induction fuel generalizing s acc with
  | zero => simp [breakLoop]
  | succ fuel ih =>
    obtain ⟨⟨item, s'⟩, hs', hitem⟩ := Outcome.bind_eq_ok.mp (hitems 0)
    obtain rfl : item = some a := by simpa using hitem
    have hitems' : ∀ k, call next k s' = .ok (some a) := by
      intro k
      rw [← call_succ_of_next hs']
      exact hitems (k + 1)
    simp only [breakLoop, hs', Outcome.lift_ok, Outcome.ok_bind]
    cases hturn : body a acc with
    | err e => simp
    | panic => simp
    | ok turn =>
      cases turn with
      | done acc' => exact absurd hturn (hbody acc acc')
      | yield acc' => exact ih hitems' acc'

end loop

/-! ### Loops over frames -/

section frames

variable {stop : List β → Prop} {dec : Decoder ε α β} {b : List β} {items : List (Except ε α)}

/-- The frames of a buffer, no more than `fuel` of them. -/
def readFrames (stop : List β → Prop) [DecidablePred stop] (dec : Decoder ε α β) :
    Nat → List β → List (Except ε α)
  | 0, _ => []
  | fuel + 1, b =>
    if stop b then []
    else match dec b with
      | .ok (a, r) => .ok a :: readFrames stop dec fuel r
      | .err e => [.error e]
      | .panic => []

theorem Framing.frames_readFrames {enc : α → List β} {Valid : α → Prop} [DecidablePred stop]
    (hf : Framing enc Valid stop dec) {fuel : Nat} (hfuel : b.length < fuel) :
    Frames stop dec b (readFrames stop dec fuel b) := by
  induction fuel generalizing b with
  | zero => omega
  | succ fuel ih =>
    unfold readFrames
    by_cases hs : stop b
    · rw [if_pos hs]
      exact .stop hs
    rw [if_neg hs]
    cases hd : dec b with
    | ok x =>
      obtain ⟨a, r⟩ := x
      obtain ⟨hva, rfl⟩ := hf.sound hd
      have hpos := List.length_pos_iff.mpr (hf.ne_nil hva)
      rw [List.length_append] at hfuel
      exact .ok hs hd (ih (by omega))
    | err e => exact .err hs hd
    | panic => exact absurd hd (hf.ne_panic b)

theorem Framing.valid_of_mem {enc : α → List β} {Valid : α → Prop} (hf : Framing enc Valid stop dec)
    (h : Frames stop dec b items) {a : α} (ha : .ok a ∈ items) : Valid a := by
  induction h with
  | stop => simp at ha
  | ok _ hd _ ih =>
    rcases List.mem_cons.mp ha with ha | ha
    · obtain rfl := Except.ok.inj ha
      exact (hf.sound hd).1
    · exact ih ha
  | err => simp at ha

theorem Framing.length_items_le {enc : α → List β} {Valid : α → Prop}
    (hf : Framing enc Valid stop dec) (hnil : stop []) (h : Frames stop dec b items) :
    items.length ≤ b.length := by
  induction h with
  | stop => exact Nat.zero_le _
  | ok _ hd _ ih =>
    obtain ⟨hva, rfl⟩ := hf.sound hd
    have hpos := List.length_pos_iff.mpr (hf.ne_nil hva)
    rw [List.length_cons, List.length_append]
    omega
  | @err b e hs =>
    refine List.length_pos_iff.mpr ?_
    rintro rfl
    exact hs hnil

/-- A loop that carries on at every value, and at an error does as it likes. -/
theorem Frames.forIn_eq {body : Except ε α → γ → Outcome ε' (ForInStep γ)}
    {f : γ → Except ε α → Outcome ε' γ}
    (hok : ∀ a acc, body (.ok a) acc = do return .yield (← f acc (.ok a)))
    (herr : ∀ e acc, body (.error e) acc = (do return .yield (← f acc (.error e))) ∨
      body (.error e) acc = (do return .done (← f acc (.error e))))
    (h : Frames stop dec b items) (acc : γ) : forIn items acc body = items.foldlM f acc := by
  induction h generalizing acc with
  | stop => rfl
  | @ok _ a _ _ _ _ _ ih =>
    rw [List.forIn_cons, List.foldlM_cons, hok]
    cases f acc (.ok a) with
    | ok acc' => exact ih acc'
    | err e => rfl
    | panic => rfl
  | @err _ e =>
    rw [List.forIn_cons, List.foldlM_cons]
    rcases herr e acc with h | h <;> rw [h] <;> cases f acc (.error e) <;> rfl

end frames

end IpfixParser.Lib

import IpfixParser.Lib.Pull
import Mathlib.Data.List.Forall2

/-!
# Codes and framed streams

A decoder cuts one value off the front of a buffer. `IsCode enc Valid dec` says that it undoes the
encoder `enc` on the valid values and accepts nothing else; codes can be put one after another
(`IsCode.all`).

A framed stream is a concatenation of encoded values followed by padding. `Frames stop dec b items`
is what reading a buffer `b` frame by frame gives: the values up to padding (`stop`) or up to the
first error, which ends the reading. For a code, the values are exactly those the buffer is a
concatenation of (`Framing.frames_ok_iff`, `Framing.frames_err_iff`), and up to an error they are
as many as possible (`Framing.longest`). `ReadsFrames` relates a pull iterator to the frames of the
buffer it holds.
-/

namespace IpfixParser.Lib

variable {α β ε ι σ : Type}

/-- Cutting one value off the front of a buffer. -/
abbrev Decoder (ε α β : Type) := List β → Outcome ε (α × List β)

/-- `dec` undoes `enc` on the `Valid` values and accepts nothing else. -/
structure IsCode (enc : α → List β) (Valid : α → Prop) (dec : Decoder ε α β) : Prop where
  sound : ∀ {b a r}, dec b = .ok (a, r) → Valid a ∧ b = enc a ++ r
  complete : ∀ {a}, Valid a → ∀ r, dec (enc a ++ r) = .ok (a, r)

/-! ### Codes in sequence -/

/-- Decode one value for each index, in order. -/
def decodeAll (dec : ι → Decoder ε α β) : List ι → Decoder ε (List α) β
  | [], b => .ok ([], b)
  | i :: is, b => do
    let (a, r) ← dec i b
    let (as, r') ← decodeAll dec is r
    return (a :: as, r')

theorem decodeAll_ne_panic {dec : ι → Decoder ε α β} (hdec : ∀ i b, dec i b ≠ .panic) (is : List ι)
    (b : List β) : decodeAll dec is b ≠ .panic := by
  induction is generalizing b with
  | nil => simp [decodeAll]
  | cons i is ih =>
    refine Outcome.bind_ne_panic (hdec i b) fun x _ => ?_
    exact Outcome.bind_ne_panic (ih x.2) fun y _ => by simp

theorem exists_of_decodeAll_eq_err {dec : ι → Decoder ε α β} {is : List ι} {b : List β} {e : ε}
    (h : decodeAll dec is b = .err e) : ∃ i b', dec i b' = .err e := by
  induction is generalizing b with
  | nil => cases h
  | cons i is ih =>
    rcases Outcome.bind_eq_err.mp h with herr | ⟨x, -, h⟩
    · exact ⟨i, b, herr⟩
    · rcases Outcome.bind_eq_err.mp h with herr | ⟨y, -, h⟩
      · exact ih herr
      · cases h

/-- Codes in sequence are a code of lists. -/
theorem IsCode.all {enc : α → List β} {Valid : ι → α → Prop} {dec : ι → Decoder ε α β}
    (hc : ∀ i, IsCode enc (Valid i) (dec i)) (is : List ι) :
    IsCode (fun as => as.flatMap enc) (List.Forall₂ Valid is) (decodeAll dec is) where
  sound := by
    intro b as r h
    induction is generalizing b as with
    | nil =>
      obtain ⟨rfl, rfl⟩ : [] = as ∧ b = r := by simpa [decodeAll] using h
      exact ⟨.nil, rfl⟩
    | cons i is ih =>
      obtain ⟨⟨a, r₁⟩, ha, h⟩ := Outcome.bind_eq_ok.mp h
      obtain ⟨⟨as', r₂⟩, has, h⟩ := Outcome.bind_eq_ok.mp h
      obtain ⟨rfl, rfl⟩ : a :: as' = as ∧ r₂ = r := by simpa using h
      obtain ⟨hva, rfl⟩ := (hc i).sound ha
      obtain ⟨hvas, rfl⟩ := ih has
      exact ⟨.cons hva hvas, by simp⟩
  complete := by
    intro as h r
    induction h with
    | nil => rfl
    | cons ha _ ih =>
      simp only [List.flatMap_cons, List.append_assoc, decodeAll, (hc _).complete ha, Outcome.ok_bind,
        ih, Outcome.pure_eq]

/-! ### Frames -/

/-- The values read off a buffer frame by frame, until padding or an error. -/
inductive Frames (stop : List β → Prop) (dec : Decoder ε α β) : List β → List (Except ε α) → Prop
  | stop {b} : stop b → Frames stop dec b []
  | ok {b a r items} : ¬ stop b → dec b = .ok (a, r) → Frames stop dec r items →
      Frames stop dec b (.ok a :: items)
  | err {b e} : ¬ stop b → dec b = .err e → Frames stop dec b [.error e]

namespace Frames

variable {stop : List β → Prop} {dec : Decoder ε α β} {b : List β} {items items' : List (Except ε α)}

theorem unique (h : Frames stop dec b items) (h' : Frames stop dec b items') : items = items' := by
  induction h generalizing items' with
  | stop hs =>
    cases h' with
    | stop => rfl
    | ok hs' => exact absurd hs hs'
    | err hs' => exact absurd hs hs'
  | ok hs hd _ ih =>
    cases h' with
    | stop hs' => exact absurd hs' hs
    | ok _ hd' hr =>
      rw [hd] at hd'
      cases hd'
      rw [ih hr]
    | err _ hd' => simp [hd] at hd'
  | err hs hd =>
    cases h' with
    | stop hs' => exact absurd hs' hs
    | ok _ hd' => simp [hd] at hd'
    | err _ hd' =>
      rw [hd] at hd'
      cases hd'
      rfl

theorem shape (h : Frames stop dec b items) :
    ∃ l : List α, items = l.map .ok ∨ ∃ e, items = l.map .ok ++ [.error e] := by
  induction h with
  | stop => exact ⟨[], .inl rfl⟩
  | @ok _ a _ _ _ _ _ ih =>
    obtain ⟨l, rfl | ⟨e, rfl⟩⟩ := ih
    · exact ⟨a :: l, .inl rfl⟩
    · exact ⟨a :: l, .inr ⟨e, rfl⟩⟩
  | @err _ e => exact ⟨[], .inr ⟨e, rfl⟩⟩

end Frames

/-- A code whose encodings are not empty and never taken for padding, with a decoder that does not
panic. -/
structure Framing (enc : α → List β) (Valid : α → Prop) (stop : List β → Prop)
    (dec : Decoder ε α β) : Prop extends IsCode enc Valid dec where
  not_stop : ∀ {a}, Valid a → ∀ r, ¬ stop (enc a ++ r)
  ne_nil : ∀ {a}, Valid a → enc a ≠ []
  ne_panic : ∀ b, dec b ≠ .panic

namespace Framing

variable {enc : α → List β} {Valid : α → Prop} {stop : List β → Prop} {dec : Decoder ε α β}
  {b : List β} {l : List α}

theorem total (hf : Framing enc Valid stop dec) (b : List β) : ∃ items, Frames stop dec b items := by
  induction hlen : b.length using Nat.strongRecOn generalizing b with
  | ind n ih =>
    by_cases hs : stop b
    · exact ⟨[], .stop hs⟩
    · cases hd : dec b with
      | ok x =>
        obtain ⟨a, r⟩ := x
        obtain ⟨hva, rfl⟩ := hf.sound hd
        have hpos := List.length_pos_iff.mpr (hf.ne_nil hva)
        have hlt : r.length < n := by
          rw [List.length_append] at hlen
          omega
        obtain ⟨items, hr⟩ := ih r.length hlt r rfl
        exact ⟨_, .ok hs hd hr⟩
      | err e => exact ⟨_, .err hs hd⟩
      | panic => exact absurd hd (hf.ne_panic b)

theorem length_le (hf : Framing enc Valid stop dec) (hl : ∀ a ∈ l, Valid a) :
    l.length ≤ (l.flatMap enc).length := by
  induction l with
  | nil => exact Nat.zero_le _
  | cons a l ih =>
    have hpos := List.length_pos_iff.mpr (hf.ne_nil (hl a (by simp)))
    have hrest := ih fun a' ha' => hl a' (by simp [ha'])
    simp only [List.length_cons, List.flatMap_cons, List.length_append]
    omega

theorem frames_append (hf : Framing enc Valid stop dec) (hl : ∀ a ∈ l, Valid a) {r : List β}
    {items : List (Except ε α)} (hr : Frames stop dec r items) :
    Frames stop dec (l.flatMap enc ++ r) (l.map .ok ++ items) := by
  induction l with
  | nil => exact hr
  | cons a l ih =>
    have hva := hl a (by simp)
    rw [List.flatMap_cons, List.append_assoc]
    exact .ok (hf.not_stop hva _) (hf.complete hva _) (ih fun a' ha' => hl a' (by simp [ha']))

theorem split (hf : Framing enc Valid stop dec) {items : List (Except ε α)}
    (h : Frames stop dec b (l.map .ok ++ items)) :
    ∃ r, b = l.flatMap enc ++ r ∧ Frames stop dec r items ∧ ∀ a ∈ l, Valid a := by
  induction l generalizing b with
  | nil => exact ⟨b, rfl, h, by simp⟩
  | cons a l ih =>
    cases h with
    | ok hs hd hr =>
      obtain ⟨hva, rfl⟩ := hf.sound hd
      obtain ⟨r, rfl, hrest, hl⟩ := ih hr
      exact ⟨r, by simp, hrest, by simpa using ⟨hva, hl⟩⟩

/-- Reading ends at padding, having read `l`, exactly on the encodings of `l` and padding. -/
theorem frames_ok_iff (hf : Framing enc Valid stop dec) :
    Frames stop dec b (l.map .ok) ↔
      ∃ pad, b = l.flatMap enc ++ pad ∧ stop pad ∧ ∀ a ∈ l, Valid a := by
  constructor
  · intro h
    rw [← List.append_nil (l.map _)] at h
    obtain ⟨r, rfl, hr, hl⟩ := hf.split h
    cases hr with
    | stop hs => exact ⟨r, rfl, hs, hl⟩
  · rintro ⟨pad, rfl, hs, hl⟩
    have hstop : Frames stop dec pad [] := .stop hs
    simpa using hf.frames_append hl hstop

/-- Reading ends at an error, having read `l`, exactly on the encodings of `l` followed by
something that is neither padding nor decodes. -/
theorem frames_err_iff (hf : Framing enc Valid stop dec) {e : ε} :
    Frames stop dec b (l.map .ok ++ [.error e]) ↔
      ∃ r, b = l.flatMap enc ++ r ∧ ¬ stop r ∧ dec r = .err e ∧ ∀ a ∈ l, Valid a := by
  constructor
  · intro h
    obtain ⟨r, rfl, hr, hl⟩ := hf.split h
    cases hr with
    | err hs hd => exact ⟨r, rfl, hs, hd, hl⟩
  · rintro ⟨r, rfl, hs, hd, hl⟩
    exact hf.frames_append hl (.err hs hd)

theorem frames_congr (hf : Framing enc Valid stop dec) {dec' : Decoder ε α β}
    {items : List (Except ε α)}
    (hsame : ∀ (l : List α) r, (∀ a ∈ l, Valid a) → b = l.flatMap enc ++ r → dec r = dec' r)
    (h : Frames stop dec b items) : Frames stop dec' b items := by
  induction h with
  | stop hs => exact .stop hs
  | @ok b a r items hs hd _ ih =>
    obtain ⟨ha, hb⟩ := hf.sound hd
    refine .ok hs ((hsame [] b (by simp) rfl).symm.trans hd) (ih fun l r' hl hr => ?_)
    refine hsame (a :: l) r' (by simpa using ⟨ha, hl⟩) ?_
    rw [hb, hr, List.flatMap_cons, List.append_assoc]
  | @err b e hs hd => exact .err hs ((hsame [] b (by simp) rfl).symm.trans hd)

/-- No list of encodings at the front of a buffer goes past what reading it gave before its
error. -/
theorem longest (hf : Framing enc Valid stop dec) {e : ε} {l' : List α}
    (h : Frames stop dec b (l.map .ok ++ [.error e])) (hl' : ∀ a ∈ l', Valid a)
    (hpre : l'.flatMap enc <+: b) : l' <+: l := by
  obtain ⟨r', rfl⟩ := hpre
  obtain ⟨items, hr'⟩ := hf.total r'
  have heq := h.unique (hf.frames_append hl' hr')
  clear h hr'
  induction l' generalizing l with
  | nil => exact List.nil_prefix
  | cons a' l' ih =>
    cases l with
    | nil => simp at heq
    | cons a l =>
      simp only [List.map_cons, List.cons_append, List.cons.injEq, Except.ok.injEq] at heq
      obtain ⟨rfl, heq⟩ := heq
      rw [List.cons_prefix_cons]
      exact ⟨rfl, ih (fun x hx => hl' x (by simp [hx])) heq⟩

end Framing

/-! ### Iterators over frames -/

/-- A pull iterator that reads the frames of a buffer: `At s b` says that in state `s` it is about
to read `b`, `Done s` that it is exhausted. -/
structure ReadsFrames (stop : List β → Prop) (dec : Decoder ε α β) (next : Next σ (Except ε α))
    (At : σ → List β → Prop) (Done : σ → Prop) : Prop where
  onDone : ∀ s, Done s → ∃ s', next s = .ok (none, s') ∧ Done s'
  onStop : ∀ {s b}, At s b → stop b → ∃ s', next s = .ok (none, s') ∧ Done s'
  onOk : ∀ {s b a r}, At s b → ¬ stop b → dec b = .ok (a, r) →
    ∃ s', next s = .ok (some (.ok a), s') ∧ At s' r
  onErr : ∀ {s b e}, At s b → ¬ stop b → dec b = .err e →
    ∃ s', next s = .ok (some (.error e), s') ∧ Done s'

namespace ReadsFrames

variable {stop : List β → Prop} {dec : Decoder ε α β} {next : Next σ (Except ε α)}
  {At : σ → List β → Prop} {Done : σ → Prop} {s : σ} {b : List β} {items : List (Except ε α)}

theorem yields (hr : ReadsFrames stop dec next At Done) (hs : At s b) (h : Frames stop dec b items) :
    Yields next s items := by
  induction h generalizing s with
  | stop hstop =>
    obtain ⟨s', hn, hd⟩ := hr.onStop hs hstop
    intro k
    cases k with
    | zero => exact call_zero_of_next hn
    | succ k =>
      rw [call_succ_of_next hn]
      exact Yields.nil hr.onDone hd k
  | ok hstop hdec _ ih =>
    obtain ⟨s', hn, hs'⟩ := hr.onOk hs hstop hdec
    exact .cons hn (ih hs')
  | err hstop hdec =>
    obtain ⟨s', hn, hd⟩ := hr.onErr hs hstop hdec
    exact .cons hn (.nil hr.onDone hd)

theorem yields_iff {enc : α → List β} {Valid : α → Prop} (hr : ReadsFrames stop dec next At Done)
    (hf : Framing enc Valid stop dec) (hs : At s b) :
    Yields next s items ↔ Frames stop dec b items := by
  constructor
  · intro h
    obtain ⟨items', hfr⟩ := hf.total b
    rwa [h.unique (hr.yields hs hfr)]
  · exact hr.yields hs

end ReadsFrames

end IpfixParser.Lib

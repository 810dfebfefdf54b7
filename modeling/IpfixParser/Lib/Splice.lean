import Mathlib.Data.List.Induction
import Mathlib.Order.Interval.Set.Basic

/-!
# Writing into a buffer

`splice dst d new` is `dst` with the slice that starts at `d` replaced by `new`, and `writeAll` makes
a list of such writes in order. Two writes next to each other are one, and a place holds what the last
write that went there has put (`getElem?_writeAll`).
-/

namespace IpfixParser.Lib

variable {α : Type}

/-- `dst` with the slice that starts at `d` replaced by `new`. -/
def splice (dst : List α) (d : Nat) (new : List α) : List α :=
  dst.take d ++ new ++ dst.drop (d + new.length)

/-- A write of a list at a place. -/
abbrev Write (α : Type) := Nat × List α

/-- The `n` places from `d` on. -/
def span (d n : Nat) : Set Nat := Set.Ico d (d + n)

/-- No place in common. -/
def Apart (p q : Set Nat) : Prop := ∀ i ∈ p, i ∉ q

theorem Apart.symm {p q : Set Nat} (h : Apart p q) : Apart q p := fun i hq hp => h i hp hq

/-- The places a write goes to. -/
def Write.places (w : Write α) : Set Nat := span w.1 w.2.length

instance (w : Write α) (i : Nat) : Decidable (i ∈ w.places) :=
  inferInstanceAs (Decidable (w.1 ≤ i ∧ i < w.1 + w.2.length))

/-- A write inside a buffer of `n` elements. -/
def Write.Within (n : Nat) (w : Write α) : Prop := w.1 + w.2.length ≤ n

/-- The writes of `ws`, in order. -/
def writeAll (dst : List α) (ws : List (Write α)) : List α :=
  ws.foldl (fun dst w => splice dst w.1 w.2) dst

variable {dst : List α} {d : Nat} {new : List α}

theorem length_splice (h : d + new.length ≤ dst.length) : (splice dst d new).length = dst.length := by
  simp only [splice, List.length_append, List.length_take, List.length_drop]
  omega

theorem getElem?_splice (h : d + new.length ≤ dst.length) (i : Nat) :
    (splice dst d new)[i]? =
      if d ≤ i ∧ i < d + new.length then new[i - d]? else dst[i]? := by
  have htake : (dst.take d).length = d := by
    rw [List.length_take]
    omega
  simp only [splice, List.getElem?_append, List.length_append, htake]
  by_cases hlow : i < d
  · rw [if_pos (by omega), if_pos hlow, if_neg (by omega), List.getElem?_take_of_lt hlow]
  · by_cases hin : i < d + new.length
    · rw [if_pos hin, if_neg hlow, if_pos ⟨by omega, hin⟩]
    · rw [if_neg hin, if_neg (by omega), List.getElem?_drop]
      congr 1
      omega

theorem splice_append {new' : List α} (h : d + (new ++ new').length ≤ dst.length) :
    splice dst d (new ++ new') = splice (splice dst d new) (d + new.length) new' := by
  rw [List.length_append] at h
  have hlen : (splice dst d new).length = dst.length := length_splice (by omega)
  apply List.ext_getElem?
  intro i
  rw [getElem?_splice (by simpa using h), getElem?_splice (by omega), getElem?_splice (by omega)]
  simp only [List.length_append, List.getElem?_append]
  by_cases hlow : i < d
  · rw [if_neg (by omega), if_neg (by omega), if_neg (by omega)]
  · by_cases hin : i < d + new.length
    · rw [if_pos (by omega), if_pos (by omega), if_neg (by omega), if_pos (by omega)]
    · by_cases hin' : i < d + new.length + new'.length
      · rw [if_pos (by omega), if_neg (by omega), if_pos (by omega)]
        congr 1
        omega
      · rw [if_neg (by omega), if_neg (by omega), if_neg (by omega)]

theorem splice_append_right (h : d + new.length ≤ dst.length) (rest : List α) :
    splice (dst ++ rest) d new = splice dst d new ++ rest := by
  rw [splice, splice, List.take_append_of_le_length (by omega), List.drop_append_of_le_length h,
    List.append_assoc (dst.take d ++ new)]

theorem writeAll_concat (dst : List α) (ws : List (Write α)) (w : Write α) :
    writeAll dst (ws ++ [w]) = splice (writeAll dst ws) w.1 w.2 := by
  simp [writeAll]

variable {ws : List (Write α)}

theorem length_writeAll (h : ∀ w ∈ ws, w.Within dst.length) :
    (writeAll dst ws).length = dst.length := by
  induction ws generalizing dst with
  | nil => rfl
  | cons w ws ih =>
    have hw := length_splice (h w (by simp))
    rw [← hw]
    apply ih
    intro w' hw'
    rw [hw]
    exact h w' (by simp [hw'])

theorem writeAll_append_right (h : ∀ w ∈ ws, w.Within dst.length) (rest : List α) :
    writeAll (dst ++ rest) ws = writeAll dst ws ++ rest := by
  induction ws generalizing dst with
  | nil => rfl
  | cons w ws ih =>
    have hw := h w (by simp)
    have hrest : ∀ w' ∈ ws, w'.Within (splice dst w.1 w.2).length := by
      intro w' hw'
      rw [length_splice hw]
      exact h w' (by simp [hw'])
    have hfirst := ih hrest
    rw [← splice_append_right hw] at hfirst
    exact hfirst

/-- What a place holds is what the last write that goes there has put. -/
theorem getElem?_writeAll (h : ∀ w ∈ ws, w.Within dst.length) (i : Nat) :
    (writeAll dst ws)[i]? =
      (ws.reverse.find? fun w => i ∈ w.places).elim dst[i]? fun w => w.2[i - w.1]? := by
  induction ws using List.reverseRecOn with
  | nil => rfl
  | append_singleton ws w ih =>
    have hws : ∀ x ∈ ws, x.Within dst.length := fun x hx => h x (List.mem_append_left _ hx)
    have hw : w.1 + w.2.length ≤ (writeAll dst ws).length := by
      rw [length_writeAll hws]
      exact h w (by simp)
    rw [writeAll_concat, getElem?_splice hw, ih hws, List.reverse_concat, List.find?_cons]
    by_cases hi : w.1 ≤ i ∧ i < w.1 + w.2.length
    · rw [if_pos hi, decide_eq_true (show i ∈ w.places from hi)]
      rfl
    · rw [if_neg hi, decide_eq_false (show i ∉ w.places from hi)]

theorem getElem?_writeAll_of_notMem {i : Nat} (h : ∀ w ∈ ws, w.Within dst.length)
    (hi : ∀ w ∈ ws, i ∉ w.places) : (writeAll dst ws)[i]? = dst[i]? := by
  have hnone : (ws.reverse.find? fun w => i ∈ w.places) = none := by
    rw [List.find?_eq_none]
    intro w hw
    simpa using hi w (List.mem_reverse.mp hw)
  rw [getElem?_writeAll h, hnone]
  rfl

theorem take_drop_eq_iff {b v : List α} {d : Nat} :
    (b.drop d).take v.length = v ↔ ∀ j < v.length, b[d + j]? = v[j]? := by
  constructor
  · intro h j hj
    rw [← List.getElem?_drop, ← List.getElem?_take_of_lt hj, h]
  · intro h
    apply List.ext_getElem?
    intro j
    rw [List.getElem?_take]
    split_ifs with hj
    · rw [List.getElem?_drop, h j hj]
    · exact (List.getElem?_eq_none (Nat.le_of_not_lt hj)).symm

end IpfixParser.Lib

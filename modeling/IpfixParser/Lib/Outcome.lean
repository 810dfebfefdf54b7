import Mathlib.Algebra.Ring.Nat
import Mathlib.Data.List.Basic
import Mathlib.Tactic.Common

/-!
# Evaluating Rust code

`Outcome ε α` is what running a piece of Rust gives: a value (`ok`), an `Err` handed to the caller
by `?` (`err`), or a panic. Code that returns no `Result` has `ε = Empty`.

Every operation that can panic is here: slicing and indexing outside the bounds, unchecked
arithmetic that leaves its type (as with overflow checks on), `copy_from_slice` between different
lengths. Each comes with the lemma that it returns when its side condition holds; a proof that a
function returns `ok` or `err` is a proof that none of its side conditions is ever violated.
-/

namespace IpfixParser.Lib

/-- The result of running Rust code. -/
inductive Outcome (ε α : Type) where
  | ok (a : α)
  | err (e : ε)
  | panic
  deriving Repr, DecidableEq

namespace Outcome

variable {ε ε' α β γ : Type}

/-- Sequencing; an `err` leaves the function, which is Rust's `?`. -/
def bind : Outcome ε α → (α → Outcome ε β) → Outcome ε β
  | ok a, f => f a
  | err e, _ => err e
  | panic, _ => panic

instance : Monad (Outcome ε) where
  pure := ok
  bind := bind

@[simp] theorem pure_eq (a : α) : (pure a : Outcome ε α) = ok a := rfl

@[simp] theorem ok_bind (a : α) (f : α → Outcome ε β) : (ok a >>= f) = f a := rfl

@[simp] theorem err_bind (e : ε) (f : α → Outcome ε β) : (err e >>= f) = err e := rfl

@[simp] theorem panic_bind (f : α → Outcome ε β) : (panic >>= f) = panic := rfl

/-- Catching the `Err` of a call, as `match f(..) { Ok(..) => .., Err(..) => .. }` does. -/
def attempt : Outcome ε α → Outcome ε' (Except ε α)
  | ok a => ok (.ok a)
  | err e => ok (.error e)
  | panic => panic

@[simp] theorem attempt_ok (a : α) : (attempt (ok a : Outcome ε α) : Outcome ε' _) = ok (.ok a) := rfl

@[simp] theorem attempt_err (e : ε) :
    (attempt (err e : Outcome ε α) : Outcome ε' _) = ok (.error e) := rfl

@[simp] theorem attempt_panic : (attempt (panic : Outcome ε α) : Outcome ε' _) = panic := rfl

/-- `Option::ok_or`, followed by `?`. -/
def okOr (e : ε) : Option α → Outcome ε α
  | some a => ok a
  | none => err e

@[simp] theorem okOr_some (e : ε) (a : α) : okOr e (some a) = ok a := rfl

@[simp] theorem okOr_none (e : ε) : (okOr e none : Outcome ε α) = err e := rfl

/-- `Result::expect`, on a `Result` value. -/
def expect : Except ε α → Outcome ε' α
  | .ok a => ok a
  | .error _ => panic

@[simp] theorem expect_ok (a : α) : expect (.ok a : Except ε α) = (ok a : Outcome ε' α) := rfl

/-- `Result::map_err`. -/
def mapErr (f : ε → ε') : Outcome ε α → Outcome ε' α
  | ok a => ok a
  | err e => err (f e)
  | panic => panic

theorem bind_eq_ok {x : Outcome ε α} {f : α → Outcome ε β} {b : β} :
    (x >>= f) = ok b ↔ ∃ a, x = ok a ∧ f a = ok b := by
  cases x <;> simp

theorem bind_eq_err {x : Outcome ε α} {f : α → Outcome ε β} {e : ε} :
    (x >>= f) = err e ↔ x = err e ∨ ∃ a, x = ok a ∧ f a = err e := by
  cases x <;> simp

theorem bind_ne_panic {x : Outcome ε α} {f : α → Outcome ε β} (hx : x ≠ panic)
    (hf : ∀ a, x = ok a → f a ≠ panic) : (x >>= f) ≠ panic := by
  cases x with
  | ok a => exact hf a rfl
  | err e => simp
  | panic => exact absurd rfl hx

theorem foldlM_push {body : List β → α → Outcome ε (List β)} {g : α → β} {l : List α}
    (h : ∀ a ∈ l, ∀ acc, body acc a = ok (acc ++ [g a])) (acc : List β) :
    l.foldlM body acc = ok (acc ++ l.map g) := by
  induction l generalizing acc with
  | nil => simp
  | cons a l ih =>
    rw [List.foldlM_cons, h a (by simp), ok_bind, ih fun a' ha' => h a' (by simp [ha'])]
    simp

theorem okOr_ne_panic (e : ε) (x : Option α) : okOr e x ≠ panic := by
  cases x <;> simp

theorem foldlM_ne_panic {f : β → α → Outcome ε β} (hf : ∀ b a, f b a ≠ panic) (l : List α) (b : β) :
    l.foldlM f b ≠ panic := by
  induction l generalizing b with
  | nil => simp
  | cons a l ih =>
    rw [List.foldlM_cons]
    exact bind_ne_panic (hf b a) fun b' _ => ih b'

theorem forM_cases {f : α → Outcome ε PUnit} {e : ε} {l : List α}
    (hf : ∀ a ∈ l, f a = err e ∨ f a = ok ()) :
    (l.forM f = err e ∧ ∃ a ∈ l, f a = err e) ∨ l.forM f = ok () ∧ ∀ a ∈ l, f a = ok () := by
  induction l with
  | nil => exact .inr ⟨rfl, by simp⟩
  | cons a l ih =>
    rw [List.forM]
    rcases hf a (by simp) with ha | ha
    · rw [ha]
      exact .inl ⟨rfl, a, by simp, ha⟩
    · rw [ha, ok_bind]
      rcases ih fun a' ha' => hf a' (by simp [ha']) with ⟨hl, a', ha', herr⟩ | ⟨hl, hall⟩
      · exact .inl ⟨hl, a', by simp [ha'], herr⟩
      · exact .inr ⟨hl, by simpa using ⟨ha, hall⟩⟩

@[simp] theorem mapErr_eq_ok {x : Outcome ε α} {f : ε → ε'} {a : α} : x.mapErr f = ok a ↔ x = ok a := by
  cases x <;> simp [mapErr]

@[simp] theorem mapErr_eq_panic {x : Outcome ε α} {f : ε → ε'} : x.mapErr f = panic ↔ x = panic := by
  cases x <;> simp [mapErr]

end Outcome

/-! ### Targets -/

/-- Byte order of the machine. -/
inductive Endian where
  | little
  | big
  deriving Repr, DecidableEq

/-- What the compilation target fixes: the width of `usize` and the byte order. -/
structure Target where
  usizeBits : Nat
  usizeBits_eq : usizeBits = 32 ∨ usizeBits = 64
  endian : Endian

namespace Target

/-- `usize::MAX`. -/
def usizeMax (tg : Target) : Nat := 2 ^ tg.usizeBits - 1

/-- `isize::MAX`, the largest size in bytes of any slice. -/
def isizeMax (tg : Target) : Nat := 2 ^ (tg.usizeBits - 1) - 1

theorem usizeMax_ge (tg : Target) : 2 ^ 32 - 1 ≤ tg.usizeMax := by
  rcases tg.usizeBits_eq with h | h <;> simp [usizeMax, h]

theorem isizeMax_ge (tg : Target) : 2 ^ 31 - 1 ≤ tg.isizeMax := by
  rcases tg.usizeBits_eq with h | h <;> simp [isizeMax, h]

theorem isizeMax_add_le (tg : Target) : tg.isizeMax + 2 ^ 31 ≤ tg.usizeMax := by
  rcases tg.usizeBits_eq with h | h <;> simp [isizeMax, usizeMax, h]

/-- A 64-bit little-endian machine, such as x86-64. -/
def le64 : Target := ⟨64, Or.inr rfl, .little⟩

/-- A 32-bit little-endian machine. -/
def le32 : Target := ⟨32, Or.inl rfl, .little⟩

end Target

/-! ### Machine arithmetic -/

section arith

variable {ε : Type}

/-- `a + b` on `usize`. -/
def usizeAdd (tg : Target) (a b : Nat) : Outcome ε Nat :=
  if a + b ≤ tg.usizeMax then .ok (a + b) else .panic

/-- `a * b` on `usize`. -/
def usizeMul (tg : Target) (a b : Nat) : Outcome ε Nat :=
  if a * b ≤ tg.usizeMax then .ok (a * b) else .panic

/-- `a - b` on any unsigned type. -/
def uintSub (a b : Nat) : Outcome ε Nat :=
  if b ≤ a then .ok (a - b) else .panic

/-- `a.checked_add(b)` on `usize`. -/
def usizeCheckedAdd (tg : Target) (a b : Nat) : Option Nat :=
  if a + b ≤ tg.usizeMax then some (a + b) else none

theorem usizeAdd_eq {tg : Target} {a b : Nat} (h : a + b ≤ tg.usizeMax) :
    (usizeAdd tg a b : Outcome ε Nat) = .ok (a + b) := if_pos h

theorem usizeMul_eq {tg : Target} {a b : Nat} (h : a * b ≤ tg.usizeMax) :
    (usizeMul tg a b : Outcome ε Nat) = .ok (a * b) := if_pos h

theorem uintSub_eq {a b : Nat} (h : b ≤ a) : (uintSub a b : Outcome ε Nat) = .ok (a - b) := if_pos h

theorem usizeCheckedAdd_eq {tg : Target} {a b : Nat} (h : a + b ≤ tg.usizeMax) :
    usizeCheckedAdd tg a b = some (a + b) := if_pos h

/-- `count += 1` on `u8`. -/
def u8Incr (a : UInt8) : Outcome ε UInt8 :=
  if a.toNat + 1 < 2 ^ 8 then .ok (a + 1) else .panic

/-- `count += 1` on `u16`. -/
def u16Incr (a : UInt16) : Outcome ε UInt16 :=
  if a.toNat + 1 < 2 ^ 16 then .ok (a + 1) else .panic

/-- `a * b` on `u32`. -/
def u32Mul (a b : UInt32) : Outcome ε UInt32 :=
  if a.toNat * b.toNat < 2 ^ 32 then .ok (a * b) else .panic

/-- `a.checked_add(b)` on `u32`. -/
def u32CheckedAdd (a b : UInt32) : Option UInt32 :=
  if a.toNat + b.toNat < 2 ^ 32 then some (a + b) else none

/-- `a.saturating_add(b)` on `u32`. -/
def u32SaturatingAdd (a b : UInt32) : UInt32 :=
  if a.toNat + b.toNat < 2 ^ 32 then a + b else UInt32.ofNat (2 ^ 32 - 1)

theorem u32Mul_eq {a b : UInt32} (h : a.toNat * b.toNat < 2 ^ 32) :
    (u32Mul a b : Outcome ε UInt32) = .ok (a * b) := if_pos h

theorem u16Incr_eq {a : UInt16} (h : a.toNat + 1 < 2 ^ 16) :
    (u16Incr a : Outcome ε UInt16) = .ok (a + 1) := if_pos h

theorem toNat_add_of_lt {a b : UInt32} (h : a.toNat + b.toNat < 2 ^ 32) :
    (a + b).toNat = a.toNat + b.toNat := by
  rw [UInt32.toNat_add, Nat.mod_eq_of_lt h]

theorem u32CheckedAdd_eq_none {a b : UInt32} (h : u32CheckedAdd a b = none) :
    2 ^ 32 ≤ a.toNat + b.toNat := by
  rw [u32CheckedAdd] at h
  split_ifs at h with hlt
  exact Nat.le_of_not_lt hlt

theorem u32CheckedAdd_eq_some {a b c : UInt32} (h : u32CheckedAdd a b = some c) :
    c.toNat = a.toNat + b.toNat := by
  rw [u32CheckedAdd] at h
  split_ifs at h with hlt
  cases h
  exact toNat_add_of_lt hlt

theorem toNat_u32SaturatingAdd {a b : UInt32} (h : a.toNat + b.toNat < 2 ^ 32) :
    (u32SaturatingAdd a b).toNat = a.toNat + b.toNat := by
  rw [u32SaturatingAdd, if_pos h]
  exact toNat_add_of_lt h

end arith

/-! ### Slices -/

section slices

variable {ε α : Type}

/-- `&l[a..b]`. -/
def slice (l : List α) (a b : Nat) : Outcome ε (List α) :=
  if a ≤ b ∧ b ≤ l.length then .ok ((l.drop a).take (b - a)) else .panic

/-- `&l[a..]`. -/
def sliceFrom (l : List α) (a : Nat) : Outcome ε (List α) :=
  if a ≤ l.length then .ok (l.drop a) else .panic

/-- `&l[..b]`. -/
def sliceTo (l : List α) (b : Nat) : Outcome ε (List α) :=
  if b ≤ l.length then .ok (l.take b) else .panic

/-- `l.split_at(n)`. -/
def splitAt (l : List α) (n : Nat) : Outcome ε (List α × List α) :=
  if n ≤ l.length then .ok (l.take n, l.drop n) else .panic

/-- `l[i]`. -/
def index (l : List α) (i : Nat) : Outcome ε α :=
  match l[i]? with
  | some a => .ok a
  | none => .panic

/-- `l[i] = a`. -/
def setIndex (l : List α) (i : Nat) (a : α) : Outcome ε (List α) :=
  if i < l.length then .ok (l.set i a) else .panic

/-- `dst.copy_from_slice(src)`: the new contents of `dst`. -/
def copyFromSlice (dst src : List α) : Outcome ε (List α) :=
  if dst.length = src.length then .ok src else .panic

/-- `debug_assert!(c)`. -/
def debugAssert (c : Bool) : Outcome ε Unit :=
  if c then .ok () else .panic

/-- `l.first_chunk::<n>()`. -/
def firstChunk (n : Nat) (l : List α) : Option (List α) :=
  if n ≤ l.length then some (l.take n) else none

/-- `l.get(a..)`. -/
def getFrom (l : List α) (a : Nat) : Option (List α) :=
  if a ≤ l.length then some (l.drop a) else none

/-- `l.get(..b)`. -/
def getTo (l : List α) (b : Nat) : Option (List α) :=
  if b ≤ l.length then some (l.take b) else none

theorem slice_eq {l : List α} {a b : Nat} (hab : a ≤ b) (hb : b ≤ l.length) :
    (slice l a b : Outcome ε (List α)) = .ok ((l.drop a).take (b - a)) := if_pos ⟨hab, hb⟩

theorem sliceFrom_eq {l : List α} {a : Nat} (h : a ≤ l.length) :
    (sliceFrom l a : Outcome ε (List α)) = .ok (l.drop a) := if_pos h

theorem sliceTo_eq {l : List α} {b : Nat} (h : b ≤ l.length) :
    (sliceTo l b : Outcome ε (List α)) = .ok (l.take b) := if_pos h

theorem splitAt_eq {l : List α} {n : Nat} (h : n ≤ l.length) :
    (splitAt l n : Outcome ε (List α × List α)) = .ok (l.take n, l.drop n) := if_pos h

theorem index_eq {l : List α} {i : Nat} {a : α} (h : l[i]? = some a) :
    (index l i : Outcome ε α) = .ok a := by
  rw [index, h]

@[simp] theorem index_cons_zero (a : α) (l : List α) : (index (a :: l) 0 : Outcome ε α) = .ok a := rfl

@[simp] theorem index_cons_succ (a : α) (l : List α) (i : Nat) :
    (index (a :: l) (i + 1) : Outcome ε α) = index l i := rfl

theorem setIndex_eq {l : List α} {i : Nat} {a : α} (h : i < l.length) :
    (setIndex l i a : Outcome ε (List α)) = .ok (l.set i a) := if_pos h

theorem copyFromSlice_eq {dst src : List α} (h : dst.length = src.length) :
    (copyFromSlice dst src : Outcome ε (List α)) = .ok src := if_pos h

theorem firstChunk_eq {n : Nat} {l : List α} (h : n ≤ l.length) :
    firstChunk n l = some (l.take n) := if_pos h

theorem firstChunk_none {n : Nat} {l : List α} (h : l.length < n) : firstChunk n l = none :=
  if_neg (by omega)

theorem firstChunk_append {n : Nat} {l : List α} (r : List α) (h : l.length = n) :
    firstChunk n (l ++ r) = some l := by
  rw [firstChunk_eq (by simp [h]), List.take_left' h]

end slices

end IpfixParser.Lib

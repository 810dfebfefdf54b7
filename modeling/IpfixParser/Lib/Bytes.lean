import IpfixParser.Lib.Outcome

/-!
# Big-endian integers

`fromBe` reads a byte string as a big-endian number, `toBe w` writes one on `w` bytes; each undoes
the other. `fromNe`/`toNe` are the same in the machine's own byte order. The fixed-width readers
and writers of `u16` and `u32` words are instances.
-/

namespace IpfixParser.Lib

/-- A byte string. -/
abbrev Bytes := List UInt8

/-- `uN::from_be_bytes`. -/
def fromBe : Bytes → Nat
  | [] => 0
  | b :: bs => b.toNat * 256 ^ bs.length + fromBe bs

/-- `uN::to_be_bytes` on `w` bytes. -/
def toBe : Nat → Nat → Bytes
  | 0, _ => []
  | w + 1, n => UInt8.ofNat (n / 256 ^ w) :: toBe w n

@[simp] theorem length_toBe (w n : Nat) : (toBe w n).length = w := by
  induction w with
  | zero => rfl
  | succ w ih => simp [toBe, ih]

theorem fromBe_lt (bs : Bytes) : fromBe bs < 256 ^ bs.length := by
  induction bs with
  | nil => simp [fromBe]
  | cons b bs ih =>
    have hb := b.toNat_lt
    have hmul : b.toNat * 256 ^ bs.length ≤ 255 * 256 ^ bs.length :=
      Nat.mul_le_mul_right _ (by omega)
    simp only [fromBe, List.length_cons, Nat.pow_succ]
    omega

theorem fromBe_toBe (w n : Nat) : fromBe (toBe w n) = n % 256 ^ w := by
  induction w with
  | zero => simp [toBe, fromBe, Nat.mod_one]
  | succ w ih =>
    have hdigit : (UInt8.ofNat (n / 256 ^ w)).toNat = n / 256 ^ w % 256 := UInt8.toNat_ofNat'
    rw [toBe, fromBe, length_toBe, ih, hdigit, Nat.mod_pow_succ, Nat.mul_comm, Nat.add_comm]

theorem toBe_add_mul (w n k : Nat) : toBe w (n + k * 256 ^ w) = toBe w n := by
  induction w generalizing k with
  | zero => rfl
  | succ w ih =>
    have hsplit : k * 256 ^ (w + 1) = k * 256 * 256 ^ w := by rw [Nat.pow_succ]; ac_rfl
    rw [toBe, toBe, hsplit, ih, Nat.add_mul_div_right _ _ (Nat.pow_pos (by decide))]
    congr 1
    apply UInt8.toNat_inj.mp
    simp

theorem toBe_fromBe (bs : Bytes) : toBe bs.length (fromBe bs) = bs := by
  induction bs with
  | nil => rfl
  | cons b bs ih =>
    rw [List.length_cons, toBe, fromBe, Nat.add_comm, toBe_add_mul, ih,
      Nat.add_mul_div_right _ _ (Nat.pow_pos (by decide)), Nat.div_eq_of_lt (fromBe_lt bs)]
    simp

/-! ### Machine byte order -/

/-- `uN::from_ne_bytes`. -/
def fromNe : Endian → Bytes → Nat
  | .big, bs => fromBe bs
  | .little, bs => fromBe bs.reverse

/-- `uN::to_ne_bytes` on `w` bytes. -/
def toNe : Endian → Nat → Nat → Bytes
  | .big, w, n => toBe w n
  | .little, w, n => (toBe w n).reverse

@[simp] theorem length_toNe (e : Endian) (w n : Nat) : (toNe e w n).length = w := by
  cases e <;> simp [toNe]

theorem fromNe_toNe (e : Endian) (w n : Nat) : fromNe e (toNe e w n) = n % 256 ^ w := by
  cases e <;> simp [fromNe, toNe, fromBe_toBe]

/-! ### Words -/

/-- `u16::from_be_bytes`. -/
def u16FromBe (bs : Bytes) : UInt16 := UInt16.ofNat (fromBe bs)

/-- `u16::to_be_bytes`. -/
def u16ToBe (n : UInt16) : Bytes := toBe 2 n.toNat

/-- `u32::from_be_bytes`. -/
def u32FromBe (bs : Bytes) : UInt32 := UInt32.ofNat (fromBe bs)

/-- `u32::to_be_bytes`. -/
def u32ToBe (n : UInt32) : Bytes := toBe 4 n.toNat

@[simp] theorem length_u16ToBe (n : UInt16) : (u16ToBe n).length = 2 := length_toBe ..

@[simp] theorem length_u32ToBe (n : UInt32) : (u32ToBe n).length = 4 := length_toBe ..

@[simp] theorem u16FromBe_u16ToBe (n : UInt16) : u16FromBe (u16ToBe n) = n := by
  have hn : n.toNat < 256 ^ 2 := n.toNat_lt
  rw [u16FromBe, u16ToBe, fromBe_toBe, Nat.mod_eq_of_lt hn, UInt16.ofNat_toNat]

@[simp] theorem u32FromBe_u32ToBe (n : UInt32) : u32FromBe (u32ToBe n) = n := by
  have hn : n.toNat < 256 ^ 4 := n.toNat_lt
  rw [u32FromBe, u32ToBe, fromBe_toBe, Nat.mod_eq_of_lt hn, UInt32.ofNat_toNat]

theorem toNat_u16FromBe {bs : Bytes} (h : bs.length = 2) : (u16FromBe bs).toNat = fromBe bs := by
  have hlt := fromBe_lt bs
  rw [h] at hlt
  exact UInt16.toNat_ofNat_of_lt hlt

theorem toNat_u32FromBe {bs : Bytes} (h : bs.length = 4) : (u32FromBe bs).toNat = fromBe bs := by
  have hlt := fromBe_lt bs
  rw [h] at hlt
  exact UInt32.toNat_ofNat_of_lt hlt

theorem u16ToBe_u16FromBe {bs : Bytes} (h : bs.length = 2) : u16ToBe (u16FromBe bs) = bs := by
  rw [u16ToBe, toNat_u16FromBe h, ← h, toBe_fromBe]

theorem u32ToBe_u32FromBe {bs : Bytes} (h : bs.length = 4) : u32ToBe (u32FromBe bs) = bs := by
  rw [u32ToBe, toNat_u32FromBe h, ← h, toBe_fromBe]

end IpfixParser.Lib

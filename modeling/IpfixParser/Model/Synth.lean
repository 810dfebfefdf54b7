import IpfixParser.Model.Template

/-!
# Messages for the benchmarks

`synth_message` of `benches/common/mod.rs` and `build_varlen_message` of `benches/record_iter.rs`: a
template and a number of equal records of it, written by hand. They differ in the specifiers and in the
records; what they share is `buildMessage`.
-/

namespace IpfixParser

open Lib

/-- `u16::try_from(n).unwrap()`. -/
def u16TryFrom {ε : Type} (n : Nat) : Outcome ε UInt16 :=
  if n < 2 ^ 16 then .ok (UInt16.ofNat n) else .panic

/-- `fields.iter().map(|f| f.field_length as usize).sum()`. -/
def sumLengths {ε : Type} (tg : Target) (fields : List FieldSpecifier) : Outcome ε Nat :=
  fields.foldlM (fun sum f => usizeAdd tg sum f.fieldLength.toNat) 0

/-- A message with a template set for the specifiers and a data set of `recordCount` records, which take
`recordSize` bytes each and are `records`. -/
def buildMessage {ε : Type} (tg : Target) (tid : UInt16) (specifiers : Bytes) (fieldCount recordSize : Nat)
    (records : Bytes) (recordCount : Nat) : Outcome ε Bytes := do
  let fieldCount ← u16TryFrom fieldCount
  let tset := u16ToBe tid ++ (u16ToBe fieldCount ++ specifiers)
  let tsetLen ← u16TryFrom (← usizeAdd tg 4 tset.length)
  let tsetWithHdr := u16ToBe 2 ++ (u16ToBe tsetLen ++ tset)
  let dsetBodyLen ← usizeMul tg recordSize recordCount
  let dsetLen ← u16TryFrom (← usizeAdd tg 4 dsetBodyLen)
  let dsetWithHdr := u16ToBe tid ++ (u16ToBe dsetLen ++ records)
  let bodyLen ← usizeAdd tg tsetWithHdr.length dsetWithHdr.length
  let totalLen ← u16TryFrom (← usizeAdd tg 16 bodyLen)
  return u16ToBe 10 ++ (u16ToBe totalLen ++ (u32ToBe 1700000000 ++ (u32ToBe 0 ++ (u32ToBe 0 ++
    (tsetWithHdr ++ dsetWithHdr)))))

/-- The specifiers that `synth_message` writes. -/
def synthSpecifier (f : FieldSpecifier) : Bytes :=
  let ie := f.informationElementId ||| (if f.enterpriseNumber.isSome then 0x8000 else 0)
  u16ToBe ie ++ (u16ToBe f.fieldLength ++
    match f.enterpriseNumber with
    | some en => u32ToBe en
    | none => [])

/-- `synth_message`. -/
def synthMessage {ε : Type} (tg : Target) (tid : UInt16) (fields : List FieldSpecifier)
    (recordCount : Nat) : Outcome ε Bytes := do
  let recordSize ← sumLengths tg fields
  buildMessage tg tid (fields.flatMap synthSpecifier) fields.length recordSize
    (List.replicate (recordSize * recordCount) 0) recordCount

/-- The specifiers that `build_varlen_message` writes. -/
def varlenSpecifier (f : FieldSpecifier) : Bytes := u16ToBe f.informationElementId ++ u16ToBe f.fieldLength

/-- `b"eth00"`. -/
def eth00 : Bytes := [101, 116, 104, 48, 48]

/-- `build_varlen_message`. -/
def buildVarlenMessage {ε : Type} (tg : Target) (tid : UInt16) (fields : List FieldSpecifier)
    (recordCount : Nat) : Outcome ε Bytes :=
  match fields.getLast? with
  | none => .panic
  | some last =>
    if last.isVariableLength then do
      let fixedPart ← sumLengths tg fields.dropLast
      let recordSize ← usizeAdd tg fixedPart (1 + 5)
      let record := List.replicate fixedPart 0 ++ 5 :: eth00
      buildMessage tg tid (fields.flatMap varlenSpecifier) fields.length recordSize
        (List.replicate recordCount record).flatten recordCount
    else .panic

end IpfixParser

import IpfixParser.Lib.Splice
import IpfixParser.Model.Store

/-!
# Decode plans

`src/decode.rs` and `src/decode/swap.rs`: compiling a template and a list of mappings into copy and
byte-swap operations, and running them on a record. `apply` writes through `&mut dst`, so it returns
the new contents of `dst` with its `Result`.
-/

namespace IpfixParser

open Lib

/-- `Mapping`. -/
structure Mapping where
  ieId : UInt16
  enterprise : Option UInt32
  dstOffset : UInt32
  deriving Repr, DecidableEq

/-- `Mapping::new`. -/
def Mapping.new (ieId : UInt16) (dstOffset : UInt32) : Mapping := ⟨ieId, none, dstOffset⟩

/-- `SwapWidth`. -/
inductive SwapWidth where
  | u16
  | u32
  | u64
  | u128
  deriving Repr, DecidableEq

/-- `SwapWidth::bytes`. -/
def SwapWidth.bytes : SwapWidth → UInt32
  | u16 => 2
  | u32 => 4
  | u64 => 8
  | u128 => 16

/-- `SwapWidth::from_field_length`. -/
def SwapWidth.fromFieldLength (len : UInt16) : Option SwapWidth :=
  if len = 2 then some u16
  else if len = 4 then some u32
  else if len = 8 then some u64
  else if len = 16 then some u128
  else none

/-- `Op`. -/
inductive Op where
  | swap (width : SwapWidth) (count : UInt16) (src dst : UInt32)
  | copy (src dst len : UInt32)
  deriving Repr, DecidableEq

/-- `DecodePlan`. -/
structure DecodePlan where
  srcRecordLen : UInt32
  dstBufLen : UInt32
  ops : List Op
  deriving Repr, DecidableEq

/-! ### Building a plan -/

/-- `push_swap`: the new op list. -/
def pushSwap {ε : Type} (ops : List Op) (width : SwapWidth) (src dst : UInt32) :
    Outcome ε (List Op) :=
  let pushed := ops ++ [.swap width 1 src dst]
  match ops.getLast? with
  | some (.swap pw count ps pd) =>
    if pw = width ∧ count < 0xFFFF then do
      let run ← u32Mul count.toUInt32 width.bytes
      if u32SaturatingAdd ps run = src ∧ u32SaturatingAdd pd run = dst then
        let count' ← u16Incr count
        return ops.dropLast ++ [.swap pw count' ps pd]
      else return pushed
    else return pushed
  | _ => return pushed

/-- `push_copy`: the new op list. -/
def pushCopy (ops : List Op) (src dst len : UInt32) : List Op :=
  let pushed := ops ++ [.copy src dst len]
  match ops.getLast? with
  | some (.copy ps pd pl) =>
    if u32SaturatingAdd ps pl = src ∧ u32SaturatingAdd pd pl = dst then
      match u32CheckedAdd pl len with
      | some newLen => ops.dropLast ++ [.copy ps pd newLen]
      | none => pushed
    else pushed
  | _ => pushed

/-- Does a mapping name the IE of a field? -/
def Mapping.matches (m : Mapping) (f : FieldSpecifier) : Bool :=
  m.ieId == f.informationElementId && m.enterprise == f.enterpriseNumber

/-- The variables of the loop of `DecodePlan::build`. -/
structure PlanState where
  ops : List Op
  srcOff : UInt32
  dstMax : UInt32
  deriving Repr, DecidableEq

/-- The loop body of the duplicate check of `DecodePlan::build`. -/
def checkMapping (mappings : List Mapping) : Mapping × Nat → Outcome Error Unit := fun (m, i) => do
  let before ← sliceTo mappings i
  if before.any fun n => n.ieId == m.ieId && n.enterprise == m.enterprise then .err .duplicateMapping
  else return ()

/-- The duplicate check of `DecodePlan::build`. -/
def checkDuplicates (mappings : List Mapping) : Outcome Error Unit :=
  mappings.zipIdx.forM (checkMapping mappings)

/-- The loop body of `DecodePlan::build` for a field with mapping `m`. -/
def planMapped (st : PlanState) (f : FieldSpecifier) (m : Mapping) : Outcome Error PlanState := do
  let dst := m.dstOffset
  let dstEnd ← .okOr .invalidLength (u32CheckedAdd dst f.fieldLength.toUInt32)
  let dstMax := if dstEnd > st.dstMax then dstEnd else st.dstMax
  match SwapWidth.fromFieldLength f.fieldLength with
  | some sw =>
    let ops ← pushSwap st.ops sw st.srcOff dst
    return { st with ops, dstMax }
  | none => return { st with ops := pushCopy st.ops st.srcOff dst f.fieldLength.toUInt32, dstMax }

/-- The loop body of `DecodePlan::build`. -/
def planField (mappings : List Mapping) (st : PlanState) (f : FieldSpecifier) :
    Outcome Error PlanState := do
  let st ← match mappings.find? fun m => m.matches f with
    | some m => planMapped st f m
    | none => pure st
  let srcOff ← .okOr .invalidLength (u32CheckedAdd st.srcOff f.fieldLength.toUInt32)
  return { st with srcOff }

/-- `DecodePlan::build`. -/
def DecodePlan.build (template : TemplateRef) (mappings : List Mapping) :
    Outcome Error DecodePlan := do
  if template.fields.any fun f => f.fieldLength == variableLength then .err .variableLengthInPlan
  else
    checkDuplicates mappings
    let st ← template.fields.foldlM (planField mappings) ⟨[], 0, 0⟩
    if mappings.any fun m => !template.fields.any fun f => m.matches f then .err .mappingNotFound
    else return { srcRecordLen := st.srcOff, dstBufLen := st.dstMax, ops := st.ops }

/-- `DecodePlan::op_count`. -/
def DecodePlan.opCount (plan : DecodePlan) : Nat := plan.ops.length

/-! ### Applying a plan -/

/-- The loop of `swap_uXX_run` over the next `n` pairs of `w`-byte chunks. -/
def swapChunks {ε : Type} (endian : Endian) (w : Nat) : Nat → Bytes → Bytes → Outcome ε Bytes
  | 0, _, dst => .ok dst
  | n + 1, src, dst => do
    let v := fromBe (src.take w)
    let d ← copyFromSlice (dst.take w) (toNe endian w v)
    let rest ← swapChunks endian w n (src.drop w) (dst.drop w)
    return d ++ rest

/-- `swap_uXX_run` for elements of `w` bytes: the new contents of `dst`. -/
def swapRun {ε : Type} (endian : Endian) (w : Nat) (src dst : Bytes) : Outcome ε Bytes := do
  debugAssert (src.length == dst.length)
  debugAssert (src.length % w == 0)
  swapChunks endian w (min (src.length / w) (dst.length / w)) src dst

/-- `swap_u16_run`. -/
def swapU16Run {ε : Type} (endian : Endian) (src dst : Bytes) : Outcome ε Bytes :=
  swapRun endian 2 src dst

/-- `swap_u32_run`. -/
def swapU32Run {ε : Type} (endian : Endian) (src dst : Bytes) : Outcome ε Bytes :=
  swapRun endian 4 src dst

/-- `swap_u64_run`. -/
def swapU64Run {ε : Type} (endian : Endian) (src dst : Bytes) : Outcome ε Bytes :=
  swapRun endian 8 src dst

/-- `swap_u128_run`. -/
def swapU128Run {ε : Type} (endian : Endian) (src dst : Bytes) : Outcome ε Bytes :=
  swapRun endian 16 src dst

/-- `run(&src[s..s + w * n], &mut dst[d..d + w * n])`. -/
def applySwap {ε : Type} (tg : Target) (w : Nat) (run : Bytes → Bytes → Outcome ε Bytes)
    (n s d : Nat) (src dst : Bytes) : Outcome ε Bytes := do
  let sEnd ← usizeAdd tg s (← usizeMul tg w n)
  let source ← slice src s sEnd
  let dEnd ← usizeAdd tg d (← usizeMul tg w n)
  let target ← slice dst d dEnd
  return splice dst d (← run source target)

/-- The loop body of `DecodePlan::apply`: the new contents of `dst`. -/
def applyOp {ε : Type} (tg : Target) (src dst : Bytes) : Op → Outcome ε Bytes
  | .copy s d len => do
    let dEnd ← usizeAdd tg d.toNat len.toNat
    let target ← slice dst d.toNat dEnd
    let sEnd ← usizeAdd tg s.toNat len.toNat
    let source ← slice src s.toNat sEnd
    return splice dst d.toNat (← copyFromSlice target source)
  | .swap .u16 count s d =>
    applySwap tg 2 (swapU16Run tg.endian) count.toNat s.toNat d.toNat src dst
  | .swap .u32 count s d =>
    applySwap tg 4 (swapU32Run tg.endian) count.toNat s.toNat d.toNat src dst
  | .swap .u64 count s d =>
    applySwap tg 8 (swapU64Run tg.endian) count.toNat s.toNat d.toNat src dst
  | .swap .u128 count s d =>
    applySwap tg 16 (swapU128Run tg.endian) count.toNat s.toNat d.toNat src dst

/-- `DecodePlan::apply`, with the new contents of `dst`. -/
def DecodePlan.apply (tg : Target) (plan : DecodePlan) (src dst : Bytes) :
    Outcome Empty (Result Unit × Bytes) := do
  let srcNeed := plan.srcRecordLen.toNat
  let dstNeed := plan.dstBufLen.toNat
  match getTo src srcNeed with
  | none => return (.error .unexpectedEof, dst)
  | some src' =>
    match getTo dst dstNeed with
    | none => return (.error .destinationBufferTooSmall, dst)
    | some window =>
      let window' ← plan.ops.foldlM (applyOp tg src') window
      return (.ok (), window' ++ dst.drop dstNeed)

end IpfixParser

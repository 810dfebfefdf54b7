import IpfixParser.Model.Plan

/-!
# Data records

`src/field.rs` and `src/record.rs`: field values, the iterator over the fields of a record, and the
iterator over the records of a data set with its three ways to find the end of a record.
-/

namespace IpfixParser

open Lib

/-! ### `field.rs` -/

/-- `FieldValue`. -/
structure FieldValue where
  informationElementId : UInt16
  enterpriseNumber : Option UInt32
  data : Bytes
  deriving Repr, DecidableEq

namespace FieldValue

/-- `<&[u8; w]>::try_from(self.data).ok().map(|b| uN::from_be_bytes(*b))`. -/
def asBe {α : Type} (w : Nat) (ofNat : Nat → α) (f : FieldValue) : Option α :=
  if f.data.length = w then some (ofNat (fromBe f.data)) else none

/-- `as_u8`. -/
def asU8 (f : FieldValue) : Option UInt8 :=
  match f.data with
  | [b] => some b
  | _ => none

/-- `as_u16`. -/
def asU16 : FieldValue → Option UInt16 := asBe 2 UInt16.ofNat

/-- `as_u32`. -/
def asU32 : FieldValue → Option UInt32 := asBe 4 UInt32.ofNat

/-- `as_u64`. -/
def asU64 : FieldValue → Option UInt64 := asBe 8 UInt64.ofNat

/-- `as_u128`. -/
def asU128 : FieldValue → Option (BitVec 128) := asBe 16 (BitVec.ofNat 128)

end FieldValue

/-! ### Records and their fields -/

/-- `DataRecord`. -/
structure DataRecord where
  raw : Bytes
  template : TemplateRef
  deriving Repr, DecidableEq

/-- `FieldIter`. -/
structure FieldIter where
  buf : Bytes
  template : TemplateRef
  fieldIdx : Nat
  deriving Repr, DecidableEq

/-- `DataRecord::fields`. -/
def DataRecord.fields (r : DataRecord) : FieldIter := ⟨r.raw, r.template, 0⟩

/-- `DataRecord::decode_into`, with the new contents of `dst`. -/
def DataRecord.decodeInto (tg : Target) (r : DataRecord) (plan : DecodePlan) (dst : Bytes) :
    Outcome Empty (Result Unit × Bytes) :=
  plan.apply tg r.raw dst

/-- `decode_variable_length`. -/
def decodeVariableLength (buf : Bytes) : Outcome Error (Bytes × Bytes) :=
  match buf with
  | [] => .err .unexpectedEof
  | first :: rest => do
    let (len, rest) ←
      if first < 255 then pure (first.toNat, rest)
      else do
        let lenBytes ← .okOr .unexpectedEof (firstChunk 2 rest)
        let len := (u16FromBe lenBytes).toNat
        let rest' ← sliceFrom rest 2
        pure (len, rest')
    (split rest len).mapErr fun _ => .variableLengthOverflow

/-- The bytes of the next field under its specifier, as `FieldIter::next` cuts them. -/
def FieldSpecifier.cut (spec : FieldSpecifier) (buf : Bytes) : Outcome Error (Bytes × Bytes) :=
  if spec.fieldLength = variableLength then decodeVariableLength buf
  else split buf spec.fieldLength.toNat

/-- `FieldIter::next`. -/
def FieldIter.next (tg : Target) : Next FieldIter (Result FieldValue) := fun it => do
  match it.template.fields[it.fieldIdx]? with
  | none => return (none, it)
  | some spec =>
    let fieldIdx ← usizeAdd tg it.fieldIdx 1
    match ← (spec.cut it.buf).attempt with
    | .ok (data, rest) =>
      let value : FieldValue := ⟨spec.informationElementId, spec.enterpriseNumber, data⟩
      return (some (.ok value), { it with buf := rest, fieldIdx })
    | .error e => return (some (.error e), { it with fieldIdx })

/-! ### The end of a record -/

/-- `MAX_INLINE_VARLENS`. -/
def maxInlineVarlens : Nat := 4

/-- `VarlenLayout`. -/
inductive VarlenLayout where
  | allFixed
  | inline (skips : List UInt16) (count : UInt8) (trailing : UInt16)
  | fallback
  deriving Repr, DecidableEq

/-- The end of the variable-length field whose prefix is at `offset`, as both `record_extent`
functions find it. -/
def varlenEnd (tg : Target) (buf : Bytes) (offset : Nat) : Outcome Error Nat := do
  let first ← .okOr .unexpectedEof buf[offset]?
  if first < 255 then
    let n ← usizeAdd tg 1 first.toNat
    .okOr .invalidLength (usizeCheckedAdd tg offset n)
  else
    let start ← usizeAdd tg offset 1
    let lenBytes ← .okOr .unexpectedEof ((getFrom buf start).bind (firstChunk 2))
    let len := (u16FromBe lenBytes).toNat
    let n ← usizeAdd tg 3 len
    .okOr .invalidLength (usizeCheckedAdd tg offset n)

/-- The loop body of `record_extent_inline`. -/
def skipStep (tg : Target) (buf : Bytes) (offset : Nat) (skip : UInt16) : Outcome Error Nat := do
  let offset ← .okOr .invalidLength (usizeCheckedAdd tg offset skip.toNat)
  varlenEnd tg buf offset

/-- `record_extent_inline`. -/
def recordExtentInline (tg : Target) (buf : Bytes) (skips : List UInt16) (count : UInt8)
    (trailing : UInt16) : Outcome Error Nat := do
  let skips' ← sliceTo skips count.toNat
  let offset ← skips'.foldlM (skipStep tg buf) 0
  let offset ← .okOr .invalidLength (usizeCheckedAdd tg offset trailing.toNat)
  if offset > buf.length then .err .unexpectedEof else return offset

/-- The loop body of `record_extent`. -/
def extentStep (tg : Target) (buf : Bytes) (offset : Nat) (spec : FieldSpecifier) :
    Outcome Error Nat :=
  if spec.fieldLength = variableLength then varlenEnd tg buf offset
  else .okOr .invalidLength (usizeCheckedAdd tg offset spec.fieldLength.toNat)

/-- `record_extent`. -/
def recordExtent (tg : Target) (buf : Bytes) (template : TemplateRef) : Outcome Error Nat := do
  let offset ← template.fields.foldlM (extentStep tg buf) 0
  if offset > buf.length then .err .unexpectedEof else return offset

/-! ### The records of a data set -/

/-- `DataRecordIter`. -/
structure DataRecordIter where
  buf : Bytes
  template : TemplateRef
  minRecordSize : Nat
  layout : VarlenLayout
  deriving Repr, DecidableEq

/-- The variables of the loop of `DataRecordIter::new`. -/
structure LayoutScan where
  minRecordSize : Nat
  skips : List UInt16
  count : UInt8
  overflow : Bool
  lastEnd : Nat
  deriving Repr, DecidableEq

/-- The loop body of `DataRecordIter::new`. -/
def LayoutScan.step (tg : Target) (s : LayoutScan) (f : FieldSpecifier) :
    Outcome Empty LayoutScan := do
  if f.fieldLength = variableLength then
    let idx := s.count.toNat
    let s ← if idx < maxInlineVarlens then do
        let skip ← uintSub s.minRecordSize s.lastEnd
        if skip < 2 ^ 16 then do
          let skips ← setIndex s.skips idx (UInt16.ofNat skip)
          let count ← u8Incr s.count
          pure { s with skips, count }
        else pure { s with overflow := true }
      else pure { s with overflow := true }
    let minRecordSize ← usizeAdd tg s.minRecordSize 1
    return { s with minRecordSize, lastEnd := minRecordSize }
  else
    let minRecordSize ← usizeAdd tg s.minRecordSize f.fieldLength.toNat
    return { s with minRecordSize }

/-- The layout `DataRecordIter::new` chooses after its loop. -/
def LayoutScan.layout (s : LayoutScan) : Outcome Empty VarlenLayout := do
  if s.count = 0 then return .allFixed
  else if s.overflow then return .fallback
  else
    let trailing ← uintSub s.minRecordSize s.lastEnd
    if trailing < 2 ^ 16 then return .inline s.skips s.count (UInt16.ofNat trailing)
    else return .fallback

/-- The variables of `DataRecordIter::new` before its loop. -/
def LayoutScan.start : LayoutScan :=
  { minRecordSize := 0, skips := List.replicate maxInlineVarlens 0, count := 0, overflow := false,
    lastEnd := 0 }

/-- `DataRecordIter::new`. -/
def DataRecordIter.new (tg : Target) (buf : Bytes) (template : TemplateRef) :
    Outcome Empty DataRecordIter := do
  let s ← template.fields.foldlM (LayoutScan.step tg) LayoutScan.start
  let layout ← s.layout
  return { buf, template, minRecordSize := s.minRecordSize, layout }

/-- The `extent_result` of `DataRecordIter::next`. -/
def DataRecordIter.extent (tg : Target) (it : DataRecordIter) : Outcome Error Nat :=
  match it.layout with
  | .allFixed => .ok it.minRecordSize
  | .inline skips count trailing => recordExtentInline tg it.buf skips count trailing
  | .fallback => recordExtent tg it.buf it.template

/-- `DataRecordIter::next`. -/
def DataRecordIter.next (tg : Target) : Next DataRecordIter (Result DataRecord) := fun it => do
  if it.buf.length < it.minRecordSize then return (none, { it with buf := [] })
  else
    match ← (it.extent tg).attempt with
    | .error e => return (some (.error e), { it with buf := [] })
    | .ok extent =>
      let (recordBytes, rest) ← splitAt it.buf extent
      return (some (.ok ⟨recordBytes, it.template⟩), { it with buf := rest })

end IpfixParser

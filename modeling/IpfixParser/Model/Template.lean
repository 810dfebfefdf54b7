import IpfixParser.Model.Message

/-!
# Templates

`src/template.rs`: field specifiers, the two template decoders, and the iterator over a template
set. The decoders write into the caller's scratch buffer, so they return its new contents with
their `Result`, also when that is an error.
-/

namespace IpfixParser

open Lib

/-- `TemplateId`. -/
abbrev TemplateId := UInt16

/-- `ENTERPRISE_BIT`. -/
def enterpriseBit : UInt16 := 0x8000

/-- `VARIABLE_LENGTH`. -/
def variableLength : UInt16 := 0xFFFF

/-- `FieldSpecifier`. -/
structure FieldSpecifier where
  informationElementId : UInt16
  enterpriseNumber : Option UInt32
  fieldLength : UInt16
  deriving Repr, DecidableEq

/-- `FieldSpecifier::EMPTY`. -/
def FieldSpecifier.empty : FieldSpecifier := ⟨0, none, 0⟩

/-- `is_variable_length`. -/
def FieldSpecifier.isVariableLength (f : FieldSpecifier) : Bool := f.fieldLength == variableLength

/-- `FieldSpecifier::decode`. -/
def FieldSpecifier.decode (buf : Bytes) : Outcome Error (FieldSpecifier × Bytes) := do
  let (word, rest) ← split buf 4
  let ieWord ← readU16 (← sliceFrom word 0)
  let fieldLength ← readU16 (← sliceFrom word 2)
  let enterprise := (ieWord &&& enterpriseBit) != 0
  let informationElementId := ieWord &&& ~~~enterpriseBit
  if enterprise then
    let (enBytes, rest2) ← split rest 4
    let enterpriseNumber ← readU32 enBytes
    return ({ informationElementId, enterpriseNumber := some enterpriseNumber, fieldLength }, rest2)
  else
    return ({ informationElementId, enterpriseNumber := none, fieldLength }, rest)

/-- `TemplateRecord`. -/
structure TemplateRecord where
  id : TemplateId
  scopeFieldCount : UInt16
  fields : List FieldSpecifier
  deriving Repr, DecidableEq

namespace TemplateRecord

/-- What a decoder leaves: its `Result`, and the contents of `fields_buf`. -/
abbrev Decoded := Result (TemplateRecord × Bytes) × List FieldSpecifier

/-- `decode_into` up to its loop; `n` is `fields_buf.len()`. -/
def decodeHeader (buf : Bytes) (n : Nat) : Outcome Error (TemplateId × Nat × Bytes) := do
  let (hdr, rest) ← split buf 4
  let id ← readU16 (← sliceFrom hdr 0)
  let fieldCount := (← readU16 (← sliceFrom hdr 2)).toNat
  if fieldCount = 0 then .err .invalidLength
  else if fieldCount > n then .err .fieldBufferTooSmall
  else return (id, fieldCount, rest)

/-- `decode_options_into` up to its loop; `n` is `fields_buf.len()`. -/
def decodeOptionsHeader (buf : Bytes) (n : Nat) :
    Outcome Error (TemplateId × UInt16 × Nat × Bytes) := do
  let (hdr, rest) ← split buf 6
  let id ← readU16 (← sliceFrom hdr 0)
  let fieldCount := (← readU16 (← sliceFrom hdr 2)).toNat
  let scopeFieldCount ← readU16 (← sliceFrom hdr 4)
  if fieldCount = 0 then .err .invalidLength
  else if scopeFieldCount = 0 then .err .invalidLength
  else if scopeFieldCount.toNat > fieldCount then .err .invalidLength
  else if fieldCount > n then .err .fieldBufferTooSmall
  else return (id, scopeFieldCount, fieldCount, rest)

/-- The loop over `&mut fields_buf[..field_count]`: what is left of `rest`, and the slots, of
which those after an error keep their contents. -/
def decodeFields : List FieldSpecifier → Bytes → Outcome Empty (Result Bytes × List FieldSpecifier)
  | [], rest => return (.ok rest, [])
  | slot :: slots, rest => do
    match ← (FieldSpecifier.decode rest).attempt with
    | .ok (spec, after) =>
      let (result, slots') ← decodeFields slots after
      return (result, spec :: slots')
    | .error e => return (.error e, slot :: slots)

/-- The end of both decoders: the loop, and the record borrowing the filled slots. -/
def decodeBody (id : TemplateId) (scopeFieldCount : UInt16) (fieldCount : Nat) (rest : Bytes)
    (fieldsBuf : List FieldSpecifier) : Outcome Empty Decoded := do
  let slots ← sliceTo fieldsBuf fieldCount
  let (result, slots') ← decodeFields slots rest
  let fieldsBuf' := slots' ++ fieldsBuf.drop fieldCount
  match result with
  | .ok rest' =>
    let fields ← sliceTo fieldsBuf' fieldCount
    return (.ok ({ id, scopeFieldCount, fields }, rest'), fieldsBuf')
  | .error e => return (.error e, fieldsBuf')

/-- `TemplateRecord::decode_into`. -/
def decodeInto (buf : Bytes) (fieldsBuf : List FieldSpecifier) : Outcome Empty Decoded := do
  match ← (decodeHeader buf fieldsBuf.length).attempt with
  | .ok (id, fieldCount, rest) => decodeBody id 0 fieldCount rest fieldsBuf
  | .error e => return (.error e, fieldsBuf)

/-- `TemplateRecord::decode_options_into`. -/
def decodeOptionsInto (buf : Bytes) (fieldsBuf : List FieldSpecifier) : Outcome Empty Decoded := do
  match ← (decodeOptionsHeader buf fieldsBuf.length).attempt with
  | .ok (id, scopeFieldCount, fieldCount, rest) =>
    decodeBody id scopeFieldCount fieldCount rest fieldsBuf
  | .error e => return (.error e, fieldsBuf)

end TemplateRecord

/-- `TemplateSetKind`. -/
inductive TemplateSetKind where
  | template
  | optionsTemplate
  deriving Repr, DecidableEq

/-- The `min_header` of `TemplateSetIter::next`. -/
def TemplateSetKind.minHeader : TemplateSetKind → Nat
  | template => 4
  | optionsTemplate => 6

/-- The decoder `TemplateSetIter::next` calls. -/
def TemplateSetKind.decodeInto : TemplateSetKind → Bytes → List FieldSpecifier →
    Outcome Empty TemplateRecord.Decoded
  | template => TemplateRecord.decodeInto
  | optionsTemplate => TemplateRecord.decodeOptionsInto

/-- `TemplateSetIter`. -/
structure TemplateSetIter where
  buf : Bytes
  fieldsBuf : List FieldSpecifier
  kind : TemplateSetKind
  done : Bool
  deriving Repr, DecidableEq

/-- `TemplateSetIter::new`. -/
def TemplateSetIter.new (buf : Bytes) (fieldsBuf : List FieldSpecifier) (kind : TemplateSetKind) :
    TemplateSetIter :=
  { buf, fieldsBuf, kind, done := false }

/-- `TemplateSetIter::next`. -/
def TemplateSetIter.next : Next TemplateSetIter (Result TemplateRecord) := fun it => do
  if it.done then return (none, it)
  else if it.buf.length < it.kind.minHeader then return (none, it)
  else
    match ← it.kind.decodeInto it.buf it.fieldsBuf with
    | (.ok (record, rest), fieldsBuf) => return (some (.ok record), { it with buf := rest, fieldsBuf })
    | (.error e, fieldsBuf) =>
      return (some (.error e), { it with done := true, buf := [], fieldsBuf })

end IpfixParser

import IpfixParser.Lib.Bytes
import IpfixParser.Lib.Pull

/-!
# Messages and sets

`src/error.rs`, `src/util.rs`, `src/header.rs` and `src/set.rs`: the error type, the slice helpers,
the message header, and the sets of a message payload.
-/

namespace IpfixParser

open Lib

/-- `Error`. -/
inductive Error where
  | unexpectedEof
  | invalidLength
  | invalidVersion
  | reservedSetId
  | unknownTemplate
  | variableLengthOverflow
  | fieldBufferTooSmall
  | variableLengthInPlan
  | duplicateMapping
  | mappingNotFound
  | destinationBufferTooSmall
  deriving Repr, DecidableEq

/-- `<Error as Display>::fmt`. -/
def Error.text : Error → String
  | unexpectedEof => "unexpected end of input"
  | invalidLength => "invalid length field"
  | invalidVersion => "invalid IPFIX version (expected 0x000a)"
  | reservedSetId => "set ID is in the reserved range (0, 1, 4-255)"
  | unknownTemplate => "template ID not found in store"
  | variableLengthOverflow => "variable-length field exceeds enclosing record"
  | fieldBufferTooSmall => "caller-supplied field specifier buffer is too small"
  | variableLengthInPlan => "template contains a variable-length field; not supported by DecodePlan"
  | duplicateMapping => "DecodePlan mapping list contains the same IE twice"
  | mappingNotFound => "DecodePlan mapping references an IE not present in the template"
  | destinationBufferTooSmall => "destination buffer is shorter than the DecodePlan requires"

instance : ToString Error := ⟨Error.text⟩

/-- `Result<T>` as a value; a function that returns one is an `Outcome Error`. -/
abbrev Result := Except Error

/-! ### `util.rs` -/

/-- `read_u16`. -/
def readU16 (buf : Bytes) : Outcome Error UInt16 :=
  .okOr .unexpectedEof ((firstChunk 2 buf).map u16FromBe)

/-- `read_u32`. -/
def readU32 (buf : Bytes) : Outcome Error UInt32 :=
  .okOr .unexpectedEof ((firstChunk 4 buf).map u32FromBe)

/-- `split`. -/
def split (buf : Bytes) (n : Nat) : Outcome Error (Bytes × Bytes) :=
  if buf.length ≥ n then splitAt buf n else .err .unexpectedEof

/-- `u16::from_be_bytes([head[i], head[i + 1]])` on a fixed-size array. -/
def u16At (head : Bytes) (i : Nat) : UInt16 := u16FromBe ((head.drop i).take 2)

/-- `u32::from_be_bytes([head[i], .., head[i + 3]])` on a fixed-size array. -/
def u32At (head : Bytes) (i : Nat) : UInt32 := u32FromBe ((head.drop i).take 4)

/-! ### `header.rs` -/

/-- `HEADER_LEN`. -/
def headerLen : Nat := 16

/-- `VERSION`. -/
def version : UInt16 := 0x000a

/-- `MessageHeader`. -/
structure MessageHeader where
  version : UInt16
  length : UInt16
  exportTime : UInt32
  sequenceNumber : UInt32
  observationDomainId : UInt32
  deriving Repr, DecidableEq

/-- `MessageHeader::decode`. -/
def MessageHeader.decode (buf : Bytes) : Outcome Error (MessageHeader × Bytes) := do
  let head ← .okOr .unexpectedEof (firstChunk headerLen buf)
  let version := u16At head 0
  if version ≠ IpfixParser.version then .err .invalidVersion
  else
    let length := u16At head 2
    let msgLen := length.toNat
    if msgLen < headerLen ∨ msgLen > buf.length then .err .invalidLength
    else
      let exportTime := u32At head 4
      let sequenceNumber := u32At head 8
      let observationDomainId := u32At head 12
      let payload ← slice buf headerLen msgLen
      return ({ version, length, exportTime, sequenceNumber, observationDomainId }, payload)

/-! ### `set.rs` -/

/-- `SET_HEADER_LEN`. -/
def setHeaderLen : Nat := 4

/-- `SET_ID_TEMPLATE`. -/
def setIdTemplate : UInt16 := 2

/-- `SET_ID_OPTIONS_TEMPLATE`. -/
def setIdOptionsTemplate : UInt16 := 3

/-- `SET_ID_DATA_MIN`. -/
def setIdDataMin : UInt16 := 256

/-- `is_reserved_set_id`. -/
def isReservedSetId (id : UInt16) : Bool :=
  id < setIdDataMin && id != setIdTemplate && id != setIdOptionsTemplate

/-- `SetKind`. -/
inductive SetKind where
  | template
  | optionsTemplate
  | data (id : UInt16)
  deriving Repr, DecidableEq

/-- `Set`. -/
structure Set where
  setId : UInt16
  kind : SetKind
  records : Bytes
  deriving Repr, DecidableEq

/-- The `match set_id` of `Set::decode`. -/
def SetKind.ofSetId (setId : UInt16) : SetKind :=
  if setId = setIdTemplate then .template
  else if setId = setIdOptionsTemplate then .optionsTemplate
  else .data setId

/-- `Set::decode`. -/
def Set.decode (buf : Bytes) : Outcome Error (Set × Bytes) := do
  let head ← .okOr .unexpectedEof (firstChunk setHeaderLen buf)
  let setId := u16At head 0
  let length := (u16At head 2).toNat
  if length < setHeaderLen ∨ length > buf.length then .err .invalidLength
  else if isReservedSetId setId then .err .reservedSetId
  else
    let kind := SetKind.ofSetId setId
    let records ← slice buf setHeaderLen length
    let after ← sliceFrom buf length
    return ({ setId, kind, records }, after)

/-- `SetIter`. -/
structure SetIter where
  buf : Bytes
  deriving Repr, DecidableEq

/-- `SetIter::new`. -/
def SetIter.new (buf : Bytes) : SetIter := ⟨buf⟩

/-- `SetIter::next`. -/
def SetIter.next : Next SetIter (Result Set) := fun it => do
  if it.buf.length < setHeaderLen then return (none, ⟨[]⟩)
  else
    match ← (Set.decode it.buf).attempt with
    | .ok (set, rest) => return (some (.ok set), ⟨rest⟩)
    | .error e => return (some (.error e), ⟨[]⟩)

end IpfixParser

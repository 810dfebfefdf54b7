import IpfixParser.Model.Collector
import IpfixParser.Wire.Message
import IpfixParser.Wire.Record

/-!
# Exported messages

A message as an exporter puts it together: sets of templates and sets of records, each of them padded
or not. The records carry their template, as the exporter knows it; the message does not.
-/

namespace IpfixParser

open Lib

/-- A set, before it is written. -/
inductive ExportedSet where
  | templates (kind : TemplateSetKind) (records : List TemplateRecord) (pad : Bytes)
  | data (template : TemplateRef) (records : List (List Encoded)) (pad : Bytes)
  deriving Repr, DecidableEq

/-- The set of template records that an exporter writes. -/
def TemplateSetKind.toSet : TemplateSetKind → Bytes → Set
  | template, records => ⟨2, .template, records⟩
  | optionsTemplate, records => ⟨3, .optionsTemplate, records⟩

@[simp] theorem TemplateSetKind.records_toSet (kind : TemplateSetKind) (records : Bytes) :
    (kind.toSet records).records = records := by
  cases kind <;> rfl

/-- The bytes of a record. -/
def TemplateRef.rawRecord (es : List Encoded) : Bytes := es.flatMap Encoded.bytes

namespace ExportedSet

/-- What an exporter writes for a set. -/
def toSet : ExportedSet → Set
  | templates kind records pad => kind.toSet (records.flatMap kind.encode ++ pad)
  | data t records pad => ⟨t.id, .data t.id, records.flatMap TemplateRef.rawRecord ++ pad⟩

/-- The templates a set defines. -/
def definitions : ExportedSet → List TemplateRecord
  | templates _ records _ => records
  | data _ _ _ => []

/-- What a collector should see of a set. -/
def walked : ExportedSet → WalkedSet
  | templates kind records _ => .templates kind records
  | data t records _ => .data t.id (records.map (List.zipWith Encoded.value t.fields))

/-- A set of template records that `n` specifiers have room for, or a set of records. -/
def Valid (n : Nat) : ExportedSet → Prop
  | templates kind records pad => (∀ r ∈ records, kind.Valid n r) ∧ pad.length < kind.minHeader
  | data t records pad => 256 ≤ t.id ∧ t.fields.length ≤ 65535 ∧
      (∃ f ∈ t.fields, f.fieldLength ≠ 0) ∧ (∀ es ∈ records, t.Encodes es) ∧
      pad.length < t.minSize

end ExportedSet

/-- A message, before it is written. -/
structure ExportedMessage where
  exportTime : UInt32
  sequenceNumber : UInt32
  observationDomainId : UInt32
  sets : List ExportedSet
  deriving Repr, DecidableEq

namespace ExportedMessage

/-- What an exporter writes for the sets. -/
def payload (msg : ExportedMessage) : Bytes := msg.sets.flatMap fun s => s.toSet.encode

/-- The header of the message. -/
def header (msg : ExportedMessage) : MessageHeader where
  version := IpfixParser.version
  length := UInt16.ofNat (headerLen + msg.payload.length)
  exportTime := msg.exportTime
  sequenceNumber := msg.sequenceNumber
  observationDomainId := msg.observationDomainId

/-- What an exporter writes for the message. -/
def encode (msg : ExportedMessage) : Bytes := msg.header.encode ++ msg.payload

/-- The templates the message defines. -/
def definitions (msg : ExportedMessage) : List TemplateRecord :=
  msg.sets.flatMap ExportedSet.definitions

/-- A message that fits its length word and defines no template twice differently. -/
structure Valid (n : Nat) (msg : ExportedMessage) : Prop where
  sets : ∀ s ∈ msg.sets, s.Valid n
  length : msg.encode.length ≤ 65535
  agree : ∀ r ∈ msg.definitions, ∀ r' ∈ msg.definitions, r.id = r'.id → r = r'

end ExportedMessage

/-! ### Reading sets back -/

theorem ExportedSet.Valid.wellFormed {n : Nat} {s : ExportedSet} (h : s.Valid n)
    (hlen : s.toSet.records.length ≤ 65531) : s.toSet.WellFormed := by
  refine ⟨?_, hlen⟩
  cases s with
  | templates kind records pad =>
    cases kind with
    | template => exact .template
    | optionsTemplate => exact .optionsTemplate
  | data t records pad => exact .data h.1

theorem TemplateRef.isRecord {t : TemplateRef} {es : List Encoded} (h : t.Encodes es) :
    t.IsRecord ⟨rawRecord es, t⟩ := ⟨rfl, es, h, rfl⟩

namespace ExportedMessage

variable {msg : ExportedMessage} {n : Nat}

theorem Valid.length_payload (h : msg.Valid n) : headerLen + msg.payload.length ≤ 65535 := by
  have := h.length
  rwa [encode, List.length_append, MessageHeader.length_encode] at this

theorem Valid.wellFormed (h : msg.Valid n) : ∀ s ∈ msg.sets, s.toSet.WellFormed := by
  intro s hs
  apply (h.sets s hs).wellFormed
  have hlen := h.length_payload
  have hle : s.toSet.encode.length ≤ msg.payload.length := by
    have hsub : s.toSet.encode.Sublist msg.payload := by
      unfold payload
      rw [List.flatMap_def]
      exact List.sublist_flatten_of_mem (List.mem_map_of_mem hs)
    exact hsub.length_le
  rw [Set.length_encode] at hle
  simp only [headerLen, setHeaderLen] at hlen hle
  omega

/-- A message decodes to its header and its payload. -/
theorem Valid.decode (h : msg.Valid n) : MessageHeader.decode msg.encode = .ok (msg.header, msg.payload) := by
  have hlen : msg.header.length.toNat = headerLen + msg.payload.length :=
    UInt16.toNat_ofNat_of_lt (Nat.lt_succ_of_le h.length_payload)
  have hdec := MessageHeader.decode_encode (h := msg.header) rfl hlen []
  rwa [List.append_nil] at hdec

/-- The sets of the payload are those of the message. -/
theorem Valid.yields (h : msg.Valid n) :
    Yields SetIter.next (.new msg.payload) ((msg.sets.map ExportedSet.toSet).map .ok) := by
  have hpayload : msg.payload = (msg.sets.map ExportedSet.toSet).flatMap Set.encode ++ [] := by
    rw [List.append_nil, List.flatMap_map]
    rfl
  have hsets : ∀ s ∈ msg.sets.map ExportedSet.toSet, s.WellFormed := by
    simpa using h.wellFormed
  exact SetIter.readsFrames.yields rfl
    (Set.framing.frames_ok_iff.mpr ⟨[], hpayload, Nat.succ_pos _, hsets⟩)

theorem Valid.length_sets (h : msg.Valid n) : msg.sets.length ≤ 65535 := by
  have hsets : ∀ s ∈ msg.sets.map ExportedSet.toSet, s.WellFormed := by
    simpa using h.wellFormed
  have hle := Set.framing.length_le hsets
  have hlen := h.length_payload
  have hpayload : (msg.sets.map ExportedSet.toSet).flatMap Set.encode = msg.payload := by
    rw [List.flatMap_map]
    rfl
  rw [hpayload, List.length_map] at hle
  omega

end ExportedMessage

end IpfixParser

import IpfixParser.Model.Synth
import IpfixParser.Proof.Exchange

/-!
# The benchmarks' messages are messages

What `synth_message` and `build_varlen_message` write by hand is what an exporter writes for a template
and as many records of it (`buildMessage_eq`), unless that does not fit a message, when they panic. So
the receiver takes in one template and counts the records.
-/

namespace IpfixParser

open Lib

/-- A first message: a template and `recordCount` times the record `es`. -/
def benchMessage (tid : TemplateId) (fields : List FieldSpecifier) (es : List Encoded) (recordCount : Nat) :
    ExportedMessage where
  exportTime := 1700000000
  sequenceNumber := 0
  observationDomainId := 0
  sets := [.templates .template [⟨tid, 0, fields⟩] [],
    .data ⟨tid, 0, fields⟩ (List.replicate recordCount es) []]

/-! ### Writing -/

theorem u16TryFrom_eq {ε : Type} {n : Nat} (h : n ≤ 65535) :
    (u16TryFrom n : Outcome ε UInt16) = .ok (UInt16.ofNat n) := if_pos (Nat.lt_succ_of_le h)

theorem u16TryFrom_panic {ε : Type} {n : Nat} (h : 65535 < n) :
    (u16TryFrom n : Outcome ε UInt16) = .panic := if_neg (by omega)

theorem FieldSpecifier.length_encode_le (f : FieldSpecifier) : f.encode.length ≤ 8 := by
  unfold encode
  cases f.enterpriseNumber <;> simp

theorem length_specifiers_le (fields : List FieldSpecifier) :
    (fields.flatMap FieldSpecifier.encode).length ≤ 8 * fields.length := by
  induction fields with
  | nil => simp
  | cons f fields ih =>
    have hf := f.length_encode_le
    rw [List.flatMap_cons, List.length_append, List.length_cons]
    omega

section message

variable {tid : TemplateId} {fields : List FieldSpecifier} {es : List Encoded} {recordCount : Nat}

theorem flatMap_replicate_rawRecord :
    (List.replicate recordCount es).flatMap TemplateRef.rawRecord =
      (List.replicate recordCount (TemplateRef.rawRecord es)).flatten := by
  rw [List.flatMap_def, List.map_replicate]

theorem length_records : ((List.replicate recordCount (TemplateRef.rawRecord es)).flatten).length =
    (TemplateRef.rawRecord es).length * recordCount := by
  rw [List.length_flatten, List.map_replicate, List.sum_replicate_nat, Nat.mul_comm]

theorem benchMessage_payload : (benchMessage tid fields es recordCount).payload =
    (TemplateSetKind.template.toSet (TemplateSetKind.template.encode ⟨tid, 0, fields⟩)).encode ++
      (⟨tid, .data tid, (List.replicate recordCount (TemplateRef.rawRecord es)).flatten⟩ : Set).encode := by
  have htemplate : ([⟨tid, 0, fields⟩] : List TemplateRecord).flatMap TemplateSetKind.template.encode ++
      [] = TemplateSetKind.template.encode ⟨tid, 0, fields⟩ := by simp
  show (TemplateSetKind.template.toSet (_ ++ [])).encode ++
    ((⟨tid, .data tid, (List.replicate recordCount es).flatMap TemplateRef.rawRecord ++ []⟩ : Set).encode ++
      []) = _
  rw [htemplate, flatMap_replicate_rawRecord, List.append_nil, List.append_nil]

theorem length_encode_template : (TemplateSetKind.template.encode ⟨tid, 0, fields⟩).length =
    4 + (fields.flatMap FieldSpecifier.encode).length := by
  rw [TemplateSetKind.encode, List.length_append, TemplateSetKind.length_encodeHeader]
  rfl

theorem length_benchMessage : (benchMessage tid fields es recordCount).encode.length =
    28 + (fields.flatMap FieldSpecifier.encode).length +
      (TemplateRef.rawRecord es).length * recordCount := by
  rw [ExportedMessage.encode, List.length_append, MessageHeader.length_encode, benchMessage_payload,
    List.length_append, Set.length_encode, Set.length_encode, TemplateSetKind.records_toSet,
    length_encode_template, length_records]
  simp only [headerLen, setHeaderLen]
  omega

theorem encode_benchMessage : (benchMessage tid fields es recordCount).encode =
    u16ToBe 10 ++ (u16ToBe (UInt16.ofNat (16 + (8 + (fields.flatMap FieldSpecifier.encode).length +
      (4 + (TemplateRef.rawRecord es).length * recordCount)))) ++ (u32ToBe 1700000000 ++ (u32ToBe 0 ++
    (u32ToBe 0 ++ ((u16ToBe 2 ++ (u16ToBe (UInt16.ofNat (4 + (4 +
      (fields.flatMap FieldSpecifier.encode).length))) ++ (u16ToBe tid ++ (u16ToBe
        (UInt16.ofNat fields.length) ++ fields.flatMap FieldSpecifier.encode)))) ++
    (u16ToBe tid ++ (u16ToBe (UInt16.ofNat (4 + (TemplateRef.rawRecord es).length * recordCount)) ++
      (List.replicate recordCount (TemplateRef.rawRecord es)).flatten))))))) := by
  have hlen := @length_benchMessage tid fields es recordCount
  rw [ExportedMessage.encode, List.length_append, MessageHeader.length_encode] at hlen
  have hpayload : headerLen + (benchMessage tid fields es recordCount).payload.length =
      16 + (8 + (fields.flatMap FieldSpecifier.encode).length +
        (4 + (TemplateRef.rawRecord es).length * recordCount)) := by
    omega
  have hheader : (benchMessage tid fields es recordCount).header = ⟨10, UInt16.ofNat (16 + (8 +
      (fields.flatMap FieldSpecifier.encode).length + (4 + (TemplateRef.rawRecord es).length *
        recordCount))), 1700000000, 0, 0⟩ := by
    rw [← hpayload]
    rfl
  have htemplateLen : setHeaderLen + (TemplateSetKind.template.toSet
      (TemplateSetKind.template.encode ⟨tid, 0, fields⟩)).records.length =
        4 + (4 + (fields.flatMap FieldSpecifier.encode).length) := by
    rw [TemplateSetKind.records_toSet, length_encode_template]
    rfl
  have hrecordsLen : setHeaderLen + ((List.replicate recordCount (TemplateRef.rawRecord es)).flatten).length =
      4 + (TemplateRef.rawRecord es).length * recordCount := by
    rw [length_records]
    rfl
  rw [ExportedMessage.encode, hheader, benchMessage_payload]
  simp only [MessageHeader.encode, Set.encode, htemplateLen, hrecordsLen, List.append_assoc]
  simp only [TemplateSetKind.toSet, TemplateSetKind.encode, TemplateSetKind.encodeHeader,
    TemplateSetKind.encodeScope, List.append_nil, List.append_assoc]

/-- What the benchmarks write is what an exporter writes, unless it is too long for that. -/
theorem buildMessage_eq {ε : Type} (tg : Target) (hfields : fields.length ≤ 128) :
    (buildMessage tg tid (fields.flatMap FieldSpecifier.encode) fields.length
      (TemplateRef.rawRecord es).length (List.replicate recordCount (TemplateRef.rawRecord es)).flatten
      recordCount : Outcome ε Bytes) =
      if (benchMessage tid fields es recordCount).encode.length ≤ 65535 then
        .ok (benchMessage tid fields es recordCount).encode
      else .panic := by
  have hspecs := length_specifiers_le fields
  have hmax := tg.usizeMax_ge
  have htset : (u16ToBe tid ++ (u16ToBe (UInt16.ofNat fields.length) ++
      fields.flatMap FieldSpecifier.encode)).length =
        4 + (fields.flatMap FieldSpecifier.encode).length := by
    simp
    omega
  unfold buildMessage
  rw [u16TryFrom_eq (by omega), Outcome.ok_bind, length_benchMessage]
  simp only [htset]
  rw [usizeAdd_eq (by omega), Outcome.ok_bind, u16TryFrom_eq (by omega), Outcome.ok_bind]
  by_cases hset : (TemplateRef.rawRecord es).length * recordCount ≤ 65531
  · have hdset : (u16ToBe tid ++ (u16ToBe (UInt16.ofNat (4 + (TemplateRef.rawRecord es).length *
        recordCount)) ++ (List.replicate recordCount (TemplateRef.rawRecord es)).flatten)).length =
          4 + (TemplateRef.rawRecord es).length * recordCount := by
      rw [List.length_append, List.length_append, length_records, length_u16ToBe, length_u16ToBe]
      omega
    have htsetLen : (u16ToBe 2 ++ (u16ToBe (UInt16.ofNat (4 + (4 +
        (fields.flatMap FieldSpecifier.encode).length))) ++ (u16ToBe tid ++ (u16ToBe
          (UInt16.ofNat fields.length) ++ fields.flatMap FieldSpecifier.encode)))).length =
          8 + (fields.flatMap FieldSpecifier.encode).length := by
      rw [List.length_append, List.length_append, htset, length_u16ToBe, length_u16ToBe]
      omega
    rw [usizeMul_eq (by omega), Outcome.ok_bind, usizeAdd_eq (by omega), Outcome.ok_bind,
      u16TryFrom_eq (by omega), Outcome.ok_bind]
    simp only [hdset, htsetLen]
    rw [usizeAdd_eq (by omega), Outcome.ok_bind, usizeAdd_eq (by omega), Outcome.ok_bind]
    split_ifs with htotal
    · rw [u16TryFrom_eq (by omega), Outcome.ok_bind, encode_benchMessage]
      rfl
    · rw [u16TryFrom_panic (by omega)]
      rfl
  · -- the records alone are too long, if their length does not overflow before
    rw [if_neg (by omega)]
    by_cases hmul : (TemplateRef.rawRecord es).length * recordCount ≤ tg.usizeMax
    · rw [usizeMul_eq hmul, Outcome.ok_bind]
      by_cases hadd : 4 + (TemplateRef.rawRecord es).length * recordCount ≤ tg.usizeMax
      · rw [usizeAdd_eq hadd, Outcome.ok_bind, u16TryFrom_panic (by omega)]
        rfl
      · rw [usizeAdd, if_neg hadd]
        rfl
    · rw [usizeMul, if_neg hmul]
      rfl

theorem benchMessage_inOrder (hid : 256 ≤ tid) (hpos : 1 ≤ fields.length) (hfields : fields.length ≤ 128)
    (hwell : ∀ f ∈ fields, f.WellFormed) (hsome : ∃ f ∈ fields, f.fieldLength ≠ 0)
    (hes : TemplateRef.Encodes ⟨tid, 0, fields⟩ es)
    (hlen : (benchMessage tid fields es recordCount).encode.length ≤ 65535) :
    (benchMessage tid fields es recordCount).InOrder 128 .empty := by
  have hencodes : ∀ es' ∈ List.replicate recordCount es, TemplateRef.Encodes ⟨tid, 0, fields⟩ es' := by
    intro es' hes'
    rwa [List.eq_of_mem_replicate hes']
  have hvalid : TemplateSetKind.template.Valid 128 ⟨tid, 0, fields⟩ :=
    ⟨⟨hpos, hfields, Nat.le_trans hfields (by decide), rfl⟩, hwell⟩
  exact ExportedMessage.inOrder_of_template rfl hvalid hid hsome hencodes
    (TemplateRef.minSize_pos_iff.mpr hsome) hlen

end message

/-! ### Receiving -/

section receiver

variable {P K M : Type} [ToString P] [DecidableEq K] [LruMap M (TemplateKey K) OwnedTemplate]
  [LawfulLruMap M]

theorem ExportedMessage.InOrder.receive {msg : ExportedMessage} (h : msg.InOrder 128 .empty) (tg : Target)
    (ip : P → K) (peer : P)
    (hroom : (definedKeys (ip peer) msg.observationDomainId msg.definitions).dedup.length ≤ 4096)
    {fuel : Nat} (hfuel : 65535 < fuel) :
    ∃ st : CollectorState M, IpfixParser.receive tg fuel ip peer msg.encode .start =
        .ok ([msg.line peer], st) ∧
      (st.store.view (ip peer)).get = Knowledge.empty.after msg := by
  have hlen : (CollectorState.start : CollectorState M).fbuf.length = 128 := List.length_replicate
  have hholds := holds_start (M := M) hroom
  obtain ⟨seen, hknown, hclean⟩ := h.observe
  have hkeys : taughtKeys 128 (ip peer) msg.encode ⊆
      definedKeys (ip peer) msg.observationDomainId msg.definitions := by
    rw [ExportedMessage.taughtKeys_encode h.valid]
    exact List.Subset.refl _
  obtain ⟨store, hobserve, hend⟩ := hholds.observe_of_known hkeys hknown
  rw [← hlen] at hobserve
  obtain ⟨fbuf, -, hreturns⟩ := (receive_eq tg ip peer msg.encode sound_start).1 _ store hobserve fuel hfuel
  refine ⟨⟨store, fbuf⟩, ?_, ?_⟩
  · rw [hreturns, Observed.lines, hclean.tally]
    rfl
  · funext odid id
    have hget := hend.known (ip peer) odid id
    rwa [Function.update_self] at hget

theorem receive_benchMessage {tid : TemplateId} {fields : List FieldSpecifier} {es : List Encoded}
    {recordCount : Nat} (h : (benchMessage tid fields es recordCount).InOrder 128 .empty) (tg : Target)
    (ip : P → K) (peer : P) {fuel : Nat} (hfuel : 65535 < fuel) :
    ∃ st : CollectorState M,
      receive tg fuel ip peer (benchMessage tid fields es recordCount).encode .start =
        .ok ([.stdout (Tally.summary peer ⟨10, UInt16.ofNat (benchMessage tid fields es
          recordCount).encode.length, 1700000000, 0, 0⟩ ⟨1, recordCount, []⟩)], st) ∧
      (st.store.view (ip peer)).get 0 tid = some ⟨tid, 0, fields⟩ := by
  obtain ⟨st, hreceive, hget⟩ := h.receive (M := M) tg ip peer (Nat.le_of_ble_eq_true rfl) hfuel
  have hheader : (benchMessage tid fields es recordCount).header =
      ⟨10, UInt16.ofNat (benchMessage tid fields es recordCount).encode.length, 1700000000, 0, 0⟩ := by
    rw [ExportedMessage.encode, List.length_append, MessageHeader.length_encode]
    rfl
  have hrecords : (benchMessage tid fields es recordCount).dataRecords.length = recordCount := by
    show ((List.replicate recordCount es).map _ ++ []).length = recordCount
    rw [List.append_nil, List.length_map, List.length_replicate]
  refine ⟨st, ?_, ?_⟩
  · rw [hreceive, ExportedMessage.line, hheader, hrecords]
    rfl
  · rw [hget]
    simp [Knowledge.after, Knowledge.learn, benchMessage, ExportedMessage.definitions,
      ExportedSet.definitions, Knowledge.define, Knowledge.empty, TemplateRef.ofRecord]

end receiver

/-! ### The two functions -/

theorem sumLengths_eq {ε : Type} (tg : Target) {fields : List FieldSpecifier}
    (hfields : fields.length ≤ 128) :
    (sumLengths tg fields : Outcome ε Nat) = .ok (fields.map fun f => f.fieldLength.toNat).sum := by
  have hmax := tg.usizeMax_ge
  have hfold : ∀ (l : List FieldSpecifier) (sum : Nat), sum + 65535 * l.length ≤ tg.usizeMax →
      (l.foldlM (fun sum f => usizeAdd tg sum f.fieldLength.toNat) sum : Outcome ε Nat) =
        .ok (sum + (l.map fun f => f.fieldLength.toNat).sum) := by
    intro l
    induction l with
    | nil =>
      intro sum _
      rfl
    | cons f l ih =>
      intro sum hsum
      have hf := f.fieldLength.toNat_lt
      rw [List.length_cons] at hsum
      rw [List.foldlM_cons, usizeAdd_eq (by omega), Outcome.ok_bind, ih _ (by omega), List.map_cons,
        List.sum_cons, Nat.add_assoc]
  have hsum := hfold fields 0 (by omega)
  rwa [Nat.zero_add] at hsum

theorem synthSpecifier_eq (f : FieldSpecifier) : synthSpecifier f = f.encode := by
  unfold synthSpecifier FieldSpecifier.encode
  cases f.enterpriseNumber with
  | none => simp
  | some en => rfl

/-- A record of zeros. -/
def zeros (fields : List FieldSpecifier) : List Encoded :=
  fields.map fun f => .fixed (List.replicate f.fieldLength.toNat 0)

theorem rawRecord_zeros (fields : List FieldSpecifier) : TemplateRef.rawRecord (zeros fields) =
    List.replicate (fields.map fun f => f.fieldLength.toNat).sum 0 := by
  induction fields with
  | nil => rfl
  | cons f fields ih =>
    show List.replicate f.fieldLength.toNat 0 ++ TemplateRef.rawRecord (zeros fields) = _
    rw [ih, List.replicate_append_replicate, List.map_cons, List.sum_cons]

theorem fits_zeros {fields : List FieldSpecifier} (h : ∀ f ∈ fields, f.isVariableLength = false) :
    List.Forall₂ Encoded.Fits fields (zeros fields) := by
  unfold zeros
  rw [List.forall₂_map_right_iff, List.forall₂_same]
  intro f hf
  have hvar := h f hf
  rw [FieldSpecifier.isVariableLength, beq_eq_false_iff_ne] at hvar
  exact ⟨hvar, List.length_replicate⟩

theorem flatten_replicate_replicate (n k : Nat) (b : UInt8) :
    (List.replicate n (List.replicate k b)).flatten = List.replicate (k * n) b := by
  rw [List.flatten_replicate_replicate, Nat.mul_comm]

theorem synthMessage_eq {ε : Type} (tg : Target) (tid : TemplateId) {fields : List FieldSpecifier}
    (hfields : fields.length ≤ 128) (recordCount : Nat) :
    (synthMessage tg tid fields recordCount : Outcome ε Bytes) =
      if (benchMessage tid fields (zeros fields) recordCount).encode.length ≤ 65535 then
        .ok (benchMessage tid fields (zeros fields) recordCount).encode
      else .panic := by
  have hspecs : fields.flatMap synthSpecifier = fields.flatMap FieldSpecifier.encode :=
    congrArg (fields.flatMap ·) (funext synthSpecifier_eq)
  have hbuild := @buildMessage_eq tid fields (zeros fields) recordCount ε tg hfields
  rw [rawRecord_zeros, List.length_replicate, flatten_replicate_replicate] at hbuild
  rw [synthMessage, sumLengths_eq tg hfields, Outcome.ok_bind, hspecs]
  exact hbuild

/-- The record of `build_varlen_message`. -/
def eth00Record (fields : List FieldSpecifier) : List Encoded := zeros fields.dropLast ++ [.short eth00]

theorem rawRecord_eth00Record (fields : List FieldSpecifier) : TemplateRef.rawRecord (eth00Record fields) =
    List.replicate (fields.dropLast.map fun f => f.fieldLength.toNat).sum 0 ++ 5 :: eth00 := by
  have hraw := rawRecord_zeros fields.dropLast
  unfold TemplateRef.rawRecord at hraw ⊢
  rw [eth00Record, List.flatMap_append, hraw]
  rfl

theorem fits_eth00Record {fields : List FieldSpecifier} {last : FieldSpecifier}
    (hlast : fields.getLast? = some last) (hvar : last.isVariableLength)
    (hfixed : ∀ f ∈ fields.dropLast, f.isVariableLength = false) :
    List.Forall₂ Encoded.Fits fields (eth00Record fields) := by
  have hsplit : fields.dropLast ++ [last] = fields := List.dropLast_append_getLast? last hlast
  have hfits : Encoded.Fits last (.short eth00) := ⟨eq_of_beq hvar, by decide⟩
  have happend : List.Forall₂ Encoded.Fits (fields.dropLast ++ [last]) (eth00Record fields) :=
    List.rel_append (fits_zeros hfixed) (.cons hfits .nil)
  rwa [hsplit] at happend

theorem varlenSpecifier_eq {f : FieldSpecifier} (h : f.enterpriseNumber = none) :
    varlenSpecifier f = f.encode := by
  rw [varlenSpecifier, FieldSpecifier.encode, h]

theorem buildVarlenMessage_eq {ε : Type} (tg : Target) (tid : TemplateId) {fields : List FieldSpecifier}
    {last : FieldSpecifier} (hlast : fields.getLast? = some last) (hvar : last.isVariableLength)
    (hfields : fields.length ≤ 128) (hiana : ∀ f ∈ fields, f.enterpriseNumber = none) (recordCount : Nat) :
    (buildVarlenMessage tg tid fields recordCount : Outcome ε Bytes) =
      if (benchMessage tid fields (eth00Record fields) recordCount).encode.length ≤ 65535 then
        .ok (benchMessage tid fields (eth00Record fields) recordCount).encode
      else .panic := by
  have hspecs : fields.flatMap varlenSpecifier = fields.flatMap FieldSpecifier.encode := by
    rw [List.flatMap_def, List.flatMap_def, List.map_congr_left fun f hf => varlenSpecifier_eq (hiana f hf)]
  have hdrop : fields.dropLast.length ≤ 128 := by
    rw [List.length_dropLast]
    omega
  have hsum : (fields.dropLast.map fun f => f.fieldLength.toNat).sum ≤ 128 * 65535 := by
    have hle := List.sum_le_card_nsmul (fields.dropLast.map fun f => f.fieldLength.toNat) 65535 (by
      intro n hn
      obtain ⟨f, -, rfl⟩ := List.mem_map.mp hn
      exact Nat.le_of_lt_succ f.fieldLength.toNat_lt)
    rw [List.length_map, nsmul_eq_mul] at hle
    exact Nat.le_trans hle (Nat.mul_le_mul_right _ hdrop)
  have hmax := tg.usizeMax_ge
  have hbuild := @buildMessage_eq tid fields (eth00Record fields) recordCount ε tg hfields
  rw [rawRecord_eth00Record, List.length_append, List.length_replicate] at hbuild
  unfold buildVarlenMessage
  simp only [hlast]
  rw [if_pos hvar, sumLengths_eq tg hdrop, Outcome.ok_bind, usizeAdd_eq (by omega), Outcome.ok_bind, hspecs]
  exact hbuild

/-! ### Written, then received -/

/-- The octets of a message with `fields`, and `recordCount` records of `recordSize` octets. -/
def benchSize (fields : List FieldSpecifier) (recordSize recordCount : Nat) : Nat :=
  28 + (fields.flatMap FieldSpecifier.encode).length + recordSize * recordCount

section received

variable {P K : Type} [ToString P] [DecidableEq K] {ε : Type}
variable (M : Type) [LruMap M (TemplateKey K) OwnedTemplate] [LawfulLruMap M]

theorem received_of_written {tid : TemplateId} {fields : List FieldSpecifier} {es : List Encoded}
    {recordCount : Nat} {written : Outcome ε Bytes} (tg : Target) (hid : 256 ≤ tid)
    (hfields : fields.length ≤ 128) (hwell : ∀ f ∈ fields, f.WellFormed)
    (hsome : ∃ f ∈ fields, f.fieldLength ≠ 0) (hes : TemplateRef.Encodes ⟨tid, 0, fields⟩ es)
    (hwritten : written = if (benchMessage tid fields es recordCount).encode.length ≤ 65535 then
      .ok (benchMessage tid fields es recordCount).encode else .panic)
    (ip : P → K) (peer : P) {fuel : Nat} (hfuel : 65535 < fuel) :
    (benchSize fields (TemplateRef.rawRecord es).length recordCount ≤ 65535 → ∃ bytes, written = .ok bytes ∧
      bytes.length = benchSize fields (TemplateRef.rawRecord es).length recordCount ∧
      ∃ st : CollectorState M, receive tg fuel ip peer bytes .start =
          .ok ([.stdout (Tally.summary peer ⟨10, UInt16.ofNat bytes.length, 1700000000, 0, 0⟩
            ⟨1, recordCount, []⟩)], st) ∧
        (st.store.view (ip peer)).get 0 tid = some ⟨tid, 0, fields⟩) ∧
    (65535 < benchSize fields (TemplateRef.rawRecord es).length recordCount → written = .panic) := by
  have hlen : (benchMessage tid fields es recordCount).encode.length =
      benchSize fields (TemplateRef.rawRecord es).length recordCount := length_benchMessage
  obtain ⟨f, hf, -⟩ := id hsome
  rw [← hlen]
  constructor
  · intro hfits
    rw [if_pos hfits] at hwritten
    have hinOrder := benchMessage_inOrder hid (List.length_pos_of_mem hf) hfields hwell hsome hes hfits
    exact ⟨_, hwritten, rfl, receive_benchMessage hinOrder tg ip peer hfuel⟩
  · intro hlong
    rwa [if_neg (Nat.not_le_of_gt hlong)] at hwritten

/-- `synth_message` for any fixed-length template that the receiver takes: it panics if the message would
be too long, and otherwise the receiver keeps the template and counts all records. -/
theorem synthMessage_received (tg : Target) (tid : TemplateId) (fields : List FieldSpecifier)
    (hid : 256 ≤ tid) (hfields : fields.length ≤ 128) (hwell : ∀ f ∈ fields, f.WellFormed)
    (hfixed : ∀ f ∈ fields, f.isVariableLength = false) (hsome : ∃ f ∈ fields, f.fieldLength ≠ 0)
    (recordCount : Nat) (ip : P → K) (peer : P) {fuel : Nat} (hfuel : 65535 < fuel) :
    let size := benchSize fields (fields.map fun f => f.fieldLength.toNat).sum recordCount
    (size ≤ 65535 → ∃ bytes, (synthMessage tg tid fields recordCount : Outcome ε Bytes) = .ok bytes ∧
      bytes.length = size ∧
      ∃ st : CollectorState M, receive tg fuel ip peer bytes .start =
          .ok ([.stdout (Tally.summary peer ⟨10, UInt16.ofNat bytes.length, 1700000000, 0, 0⟩
            ⟨1, recordCount, []⟩)], st) ∧
        (st.store.view (ip peer)).get 0 tid = some ⟨tid, 0, fields⟩) ∧
    (65535 < size → (synthMessage tg tid fields recordCount : Outcome ε Bytes) = .panic) := by
  have hreceived := received_of_written M tg hid hfields hwell hsome (fits_zeros hfixed)
    (synthMessage_eq (ε := ε) tg tid hfields recordCount) ip peer hfuel
  rwa [rawRecord_zeros, List.length_replicate] at hreceived

theorem synthMessage_received_addresses :
    ∃ bytes, (synthMessage .le64 256 [⟨8, none, 4⟩] 3 : Outcome Unfinished Bytes) = .ok bytes ∧
      bytes.length = 44 ∧
      ∃ st : CollectorState (RecencyList (TemplateKey Nat) OwnedTemplate),
        receive .le64 65536 id 1 bytes .start =
          .ok ([.stdout "1 odid=0 seq=0 len=44 templates+=1 records+=3"], st) ∧
        (st.store.view 1).get 0 256 = some ⟨256, 0, [⟨8, none, 4⟩]⟩ := by
  obtain ⟨bytes, hwritten, hlen, st, hreceive, hget⟩ := (synthMessage_received (ε := Unfinished)
    (RecencyList (TemplateKey Nat) OwnedTemplate) .le64 256 [⟨8, none, 4⟩] (by decide) (by decide)
    (by simp [FieldSpecifier.WellFormed]) (by decide) (by decide) 3 id 1
    (by decide : 65535 < 65536)).1 (by decide)
  refine ⟨bytes, hwritten, hlen, st, ?_, hget⟩
  rw [hreceive, hlen]
  rfl

/-- `build_varlen_message`, for templates of IANA elements whose last field only is variable-length. -/
theorem buildVarlenMessage_received (tg : Target) (tid : TemplateId) (fields : List FieldSpecifier)
    {last : FieldSpecifier} (hid : 256 ≤ tid) (hfields : fields.length ≤ 128)
    (hwell : ∀ f ∈ fields, f.WellFormed)
    (hlast : fields.getLast? = some last) (hvar : last.isVariableLength)
    (hfixed : ∀ f ∈ fields.dropLast, f.isVariableLength = false)
    (hiana : ∀ f ∈ fields, f.enterpriseNumber = none)
    (recordCount : Nat) (ip : P → K) (peer : P) {fuel : Nat} (hfuel : 65535 < fuel) :
    let size := benchSize fields ((fields.dropLast.map fun f => f.fieldLength.toNat).sum + 6) recordCount
    (size ≤ 65535 → ∃ bytes, (buildVarlenMessage tg tid fields recordCount : Outcome ε Bytes) = .ok bytes ∧
      bytes.length = size ∧
      ∃ st : CollectorState M, receive tg fuel ip peer bytes .start =
          .ok ([.stdout (Tally.summary peer ⟨10, UInt16.ofNat bytes.length, 1700000000, 0, 0⟩
            ⟨1, recordCount, []⟩)], st) ∧
        (st.store.view (ip peer)).get 0 tid = some ⟨tid, 0, fields⟩) ∧
    (65535 < size → (buildVarlenMessage tg tid fields recordCount : Outcome ε Bytes) = .panic) := by
  have hsome : ∃ f ∈ fields, f.fieldLength ≠ 0 :=
    ⟨last, List.mem_of_getLast? hlast, by rw [eq_of_beq hvar]; decide⟩
  have hreceived := received_of_written M tg hid hfields hwell hsome (fits_eth00Record hlast hvar hfixed)
    (buildVarlenMessage_eq (ε := ε) tg tid hlast hvar hfields hiana recordCount) ip peer hfuel
  rwa [rawRecord_eth00Record, List.length_append, List.length_replicate] at hreceived

theorem buildVarlenMessage_received_interfaces :
    ∃ bytes, (buildVarlenMessage .le64 300 [⟨7, none, 2⟩, ⟨82, none, 65535⟩] 2 : Outcome Unfinished Bytes) =
        .ok bytes ∧
      bytes.length = 52 ∧
      ∃ st : CollectorState (RecencyList (TemplateKey Nat) OwnedTemplate),
        receive .le64 65536 id 1 bytes .start =
          .ok ([.stdout "1 odid=0 seq=0 len=52 templates+=1 records+=2"], st) ∧
        (st.store.view 1).get 0 300 = some ⟨300, 0, [⟨7, none, 2⟩, ⟨82, none, 65535⟩]⟩ := by
  obtain ⟨bytes, hwritten, hlen, st, hreceive, hget⟩ := (buildVarlenMessage_received (ε := Unfinished)
    (RecencyList (TemplateKey Nat) OwnedTemplate) .le64 300 [⟨7, none, 2⟩, ⟨82, none, 65535⟩] (by decide)
    (by decide) (by simp [FieldSpecifier.WellFormed]) rfl (by decide) (by decide) (by decide) 2 id 1
    (by decide : 65535 < 65536)).1 (by decide)
  refine ⟨bytes, hwritten, hlen, st, ?_, hget⟩
  rw [hreceive, hlen]
  rfl

end received

end IpfixParser

import IpfixParser.Model.Flow
import IpfixParser.Proof.Exchange

/-!
# What the collector makes of records

`Flow.ofFields` is a flow as its fields say: each member is what the last of the fields for it has.
`populateFlow` computes it in one pass (`populateFlow_eq`), and what the collector prints for a stream of
datagrams is a function of what is observed of them (`Observed.printed`, `collectAll_eq`).
-/

namespace IpfixParser

open Lib

/-! ### The fields of a record -/

/-- The fields of a record, by the specifiers that are left. A field that does not decode takes no bytes. -/
def readFields : List FieldSpecifier → Bytes → List (Result FieldValue)
  | [], _ => []
  | spec :: specs, b =>
    match spec.cut b with
    | .ok (data, rest) =>
      .ok ⟨spec.informationElementId, spec.enterpriseNumber, data⟩ :: readFields specs rest
    | .err e => .error e :: readFields specs b
    | .panic => []

/-- The values of a record. -/
def DataRecord.values (r : DataRecord) : List FieldValue :=
  (readFields r.template.fields r.raw).filterMap Except.toOption

theorem FieldIter.yields_readFields {tg : Target} {t : TemplateRef} (hlen : t.fields.length ≤ tg.usizeMax)
    {i : Nat} {specs : List FieldSpecifier} (hspecs : t.fields.drop i = specs) (b : Bytes) :
    Yields (FieldIter.next tg) ⟨b, t, i⟩ (readFields specs b) := by
  induction specs generalizing i b with
  | nil =>
    have hdone : ∀ it : FieldIter, it.template.fields[it.fieldIdx]? = none →
        ∃ it', next tg it = .ok (none, it') ∧ it'.template.fields[it'.fieldIdx]? = none :=
      fun it hit => ⟨it, by simp [next, hit], hit⟩
    exact Yields.nil hdone (List.getElem?_eq_none (List.drop_eq_nil_iff.mp hspecs))
  | cons spec specs ih =>
    have hi : t.fields[i]? = some spec := by
      rw [← Nat.add_zero i, ← List.getElem?_drop, hspecs]
      rfl
    have hlt : i < t.fields.length := (List.getElem?_eq_some_iff.mp hi).1
    have hadd : (usizeAdd tg i 1 : Outcome Empty Nat) = .ok (i + 1) := usizeAdd_eq (by omega)
    have hrest : t.fields.drop (i + 1) = specs := by
      rw [← List.drop_drop, hspecs]
      rfl
    unfold readFields
    cases hcut : spec.cut b with
    | ok x =>
      have hnext : FieldIter.next tg ⟨b, t, i⟩ = .ok (some (.ok
          ⟨spec.informationElementId, spec.enterpriseNumber, x.1⟩), ⟨x.2, t, i + 1⟩) := by
        simp only [next, hi, hadd, Outcome.ok_bind, hcut, Outcome.attempt_ok, Outcome.pure_eq]
      exact Yields.cons hnext (ih hrest x.2)
    | err e =>
      have hnext : FieldIter.next tg ⟨b, t, i⟩ = .ok (some (.error e), ⟨b, t, i + 1⟩) := by
        simp only [next, hi, hadd, Outcome.ok_bind, hcut, Outcome.attempt_err, Outcome.pure_eq]
      exact Yields.cons hnext (ih hrest b)
    | panic =>
      rw [FieldSpecifier.cut_eq] at hcut
      exact absurd hcut (Outcome.bind_ne_panic (spec.cutEncoded_ne_panic _) fun _ _ => by simp)

theorem length_readFields_le (specs : List FieldSpecifier) (b : Bytes) :
    (readFields specs b).length ≤ specs.length := by
  induction specs generalizing b with
  | nil => exact Nat.le_refl _
  | cons spec specs ih =>
    unfold readFields
    cases spec.cut b with
    | ok x => exact Nat.succ_le_succ (ih x.2)
    | err e => exact Nat.succ_le_succ (ih b)
    | panic => exact Nat.zero_le _

theorem DataRecord.values_rawRecord {t : TemplateRef} {es : List Encoded} (h : t.Encodes es) :
    DataRecord.values ⟨TemplateRef.rawRecord es, t⟩ = List.zipWith Encoded.value t.fields es := by
  have hread : ∀ (specs : List FieldSpecifier) (es : List Encoded), List.Forall₂ Encoded.Fits specs es →
      readFields specs (es.flatMap Encoded.bytes) = (List.zipWith Encoded.value specs es).map .ok := by
    intro specs es hfits
    induction hfits with
    | nil => rfl
    | @cons spec e specs es he _ ih =>
      have hcut : spec.cut ((e :: es).flatMap Encoded.bytes) = .ok (e.data, es.flatMap Encoded.bytes) := by
        rw [FieldSpecifier.cut_eq, List.flatMap_cons, spec.cutEncoded_isCode.complete he]
        rfl
      rw [readFields, hcut]
      exact congrArg (Except.ok (e.value spec) :: ·) ih
  unfold values
  rw [show TemplateRef.rawRecord es = es.flatMap Encoded.bytes from rfl, hread t.fields es h,
    List.filterMap_map]
  exact List.filterMap_some

/-! ### Flows -/

/-- The last of the fields with one of these ids. -/
def lastField (ids : List UInt16) (fields : List FieldValue) : Option FieldValue :=
  fields.reverse.find? fun f => f.informationElementId ∈ ids

/-- An IPv4 address, or an IPv6 address. -/
def FieldValue.address (v4 : UInt16) (f : FieldValue) : Option String :=
  if f.informationElementId = v4 then fmtIpv4 f.data else fmtIpv6 f.data

/-- A flow as its fields say. The numbers of enterprises make no difference. -/
def Flow.ofFields (fields : List FieldValue) : Flow where
  version :=
    match lastField [id.sourceIpv4Address, id.sourceIpv6Address] fields with
    | some f => if f.informationElementId = id.sourceIpv4Address then "v4" else "v6"
    | none => ""
  srcAddr := (lastField [id.sourceIpv4Address, id.sourceIpv6Address] fields).bind
    (FieldValue.address id.sourceIpv4Address)
  dstAddr := (lastField [id.destinationIpv4Address, id.destinationIpv6Address] fields).bind
    (FieldValue.address id.destinationIpv4Address)
  nextHop := (lastField [id.ipNextHopIpv4Address, id.ipNextHopIpv6Address] fields).bind
    (FieldValue.address id.ipNextHopIpv4Address)
  srcPort := (lastField [id.sourceTransportPort] fields).bind FieldValue.asU16
  dstPort := (lastField [id.destinationTransportPort] fields).bind FieldValue.asU16
  protocol := (lastField [id.protocolIdentifier] fields).bind FieldValue.asU8
  tcpFlags := (lastField [id.tcpControlBits] fields).bind FieldValue.asU8
  octets := (lastField [id.octetDeltaCount] fields).bind FieldValue.asU64
  packets := (lastField [id.packetDeltaCount] fields).bind FieldValue.asU64
  ingressIf := (lastField [id.ingressInterface] fields).bind FieldValue.asU32
  egressIf := (lastField [id.egressInterface] fields).bind FieldValue.asU32
  srcMac := (lastField [id.sourceMacAddress] fields).bind fun f => fmtMac f.data
  dstMac := (lastField [id.destinationMacAddress] fields).bind fun f => fmtMac f.data
  flowStartMs := (lastField [id.flowStartMilliseconds] fields).bind FieldValue.asU64
  flowEndMs := (lastField [id.flowEndMilliseconds] fields).bind FieldValue.asU64

section fields

variable (fields : List FieldValue) (f : FieldValue)

theorem lastField_concat (ids : List UInt16) : lastField ids (fields ++ [f]) =
    if f.informationElementId ∈ ids then some f else lastField ids fields := by
  unfold lastField
  rw [List.reverse_append, List.reverse_singleton, List.singleton_append, List.find?_cons]
  by_cases h : f.informationElementId ∈ ids <;> simp [h]

theorem bind_lastField_concat {β : Type} (v : FieldValue → Option β) (c : UInt16) :
    (lastField [c] (fields ++ [f])).bind v =
      if f.informationElementId = c then v f else (lastField [c] fields).bind v := by
  rw [lastField_concat]
  by_cases h : f.informationElementId = c <;> simp [h]

theorem bind_address_concat (v4 v6 : UInt16) :
    (lastField [v4, v6] (fields ++ [f])).bind (FieldValue.address v4) =
      if f.informationElementId = v4 then fmtIpv4 f.data
      else if f.informationElementId = v6 then fmtIpv6 f.data
      else (lastField [v4, v6] fields).bind (FieldValue.address v4) := by
  rw [lastField_concat]
  by_cases h₄ : f.informationElementId = v4
  · simp [h₄, FieldValue.address]
  · by_cases h₆ : f.informationElementId = v6
    · rw [if_pos (by simp [h₆]), if_neg h₄, if_pos h₆, Option.bind_some, FieldValue.address, if_neg h₄]
    · rw [if_neg (by simp [h₄, h₆]), if_neg h₄, if_neg h₆]

theorem ite_skip {α : Type} {x a b : UInt16} (hne : a ≠ b) (v w : α) :
    (if x = a then v else if x = b then w else v) = if x = b then w else v := by
  by_cases ha : x = a
  · rw [if_pos ha, if_neg (ha ▸ hne)]
  · rw [if_neg ha]

theorem ite_skip_two {α : Type} {x a b c : UInt16} (hb : a ≠ b) (hc : a ≠ c) (v w u : α) :
    (if x = a then v else if x = b then w else if x = c then u else v) =
      if x = b then w else if x = c then u else v := by
  by_cases ha : x = a
  · rw [if_pos ha, if_neg (ha ▸ hb), if_neg (ha ▸ hc)]
  · rw [if_neg ha]

theorem Flow.project_eq (flow : Flow) : flow.project f =
    let i := f.informationElementId
    { version := if i = id.sourceIpv4Address then "v4" else if i = id.sourceIpv6Address then "v6"
        else flow.version
      srcAddr := if i = id.sourceIpv4Address then fmtIpv4 f.data
        else if i = id.sourceIpv6Address then fmtIpv6 f.data else flow.srcAddr
      dstAddr := if i = id.destinationIpv4Address then fmtIpv4 f.data
        else if i = id.destinationIpv6Address then fmtIpv6 f.data else flow.dstAddr
      nextHop := if i = id.ipNextHopIpv4Address then fmtIpv4 f.data
        else if i = id.ipNextHopIpv6Address then fmtIpv6 f.data else flow.nextHop
      srcPort := if i = id.sourceTransportPort then f.asU16 else flow.srcPort
      dstPort := if i = id.destinationTransportPort then f.asU16 else flow.dstPort
      protocol := if i = id.protocolIdentifier then f.asU8 else flow.protocol
      tcpFlags := if i = id.tcpControlBits then f.asU8 else flow.tcpFlags
      octets := if i = id.octetDeltaCount then f.asU64 else flow.octets
      packets := if i = id.packetDeltaCount then f.asU64 else flow.packets
      ingressIf := if i = id.ingressInterface then f.asU32 else flow.ingressIf
      egressIf := if i = id.egressInterface then f.asU32 else flow.egressIf
      srcMac := if i = id.sourceMacAddress then fmtMac f.data else flow.srcMac
      dstMac := if i = id.destinationMacAddress then fmtMac f.data else flow.dstMac
      flowStartMs := if i = id.flowStartMilliseconds then f.asU64 else flow.flowStartMs
      flowEndMs := if i = id.flowEndMilliseconds then f.asU64 else flow.flowEndMs } := by
  unfold project
  apply Flow.ext
  all_goals
    simp only [apply_ite Flow.version, apply_ite Flow.srcAddr, apply_ite Flow.dstAddr,
      apply_ite Flow.nextHop, apply_ite Flow.srcPort, apply_ite Flow.dstPort, apply_ite Flow.protocol,
      apply_ite Flow.tcpFlags, apply_ite Flow.octets, apply_ite Flow.packets, apply_ite Flow.ingressIf,
      apply_ite Flow.egressIf, apply_ite Flow.srcMac, apply_ite Flow.dstMac, apply_ite Flow.flowStartMs,
      apply_ite Flow.flowEndMs, ite_self]
    simp (disch := decide) only [ite_skip, ite_skip_two]

theorem Flow.ofFields_concat : ofFields (fields ++ [f]) = (ofFields fields).project f := by
  rw [project_eq]
  apply Flow.ext
  case version =>
    unfold ofFields
    simp only [lastField_concat, List.mem_cons, List.not_mem_nil, or_false]
    by_cases h₄ : f.informationElementId = id.sourceIpv4Address
    · rw [if_pos (.inl h₄), if_pos h₄]
      exact if_pos h₄
    · by_cases h₆ : f.informationElementId = id.sourceIpv6Address
      · rw [if_pos (.inr h₆), if_neg h₄, if_pos h₆]
        exact if_neg h₄
      · rw [if_neg (by simp [h₄, h₆]), if_neg h₄, if_neg h₆]
  case srcAddr => exact bind_address_concat ..
  case dstAddr => exact bind_address_concat ..
  case nextHop => exact bind_address_concat ..
  all_goals exact bind_lastField_concat ..

end fields

/-- `populateFlow` is one pass over the values of the record. -/
theorem populateFlow_eq (tg : Target) {r : DataRecord} (hfields : r.template.fields.length ≤ tg.usizeMax) :
    populateFlow tg r .default = .ok (.ofFields r.values) := by
  have hyields : Yields (FieldIter.next tg) r.fields (readFields r.template.fields r.raw) :=
    FieldIter.yields_readFields hfields List.drop_zero r.raw
  have hlen : (readFields r.template.fields r.raw).length < r.template.fields.length + 1 :=
    Nat.lt_succ_of_le (length_readFields_le ..)
  have hpass : ∀ (items : List (Result FieldValue)) (flow : Flow), forIn items flow populateField =
      .ok ((items.filterMap Except.toOption).foldl Flow.project flow) := by
    intro items
    induction items with
    | nil => exact fun _ => rfl
    | cons item items ih =>
      intro flow
      rw [List.forIn_cons]
      cases item with
      | ok f => exact ih _
      | error e => exact ih _
  have hfold : ∀ fields : List FieldValue, fields.foldl Flow.project .default = .ofFields fields := by
    intro fields
    induction fields using List.reverseRecOn with
    | nil => rfl
    | append_singleton fields f ih => rw [List.foldl_append, ih, Flow.ofFields_concat]; rfl
  obtain ⟨it, -, hloop⟩ := breakLoop_eq populateField hyields hlen Flow.default
  unfold populateFlow
  rw [hloop, hpass, hfold]
  rfl

end IpfixParser

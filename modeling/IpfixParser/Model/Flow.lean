import IpfixParser.Model.Receiver

/-!
# Flow records

`examples/json_collector.rs`: what the collector makes of a data record, and its loops. A line of
JSON is the record that it is the text of. The file that the datagrams are read from is not modelled
here.
-/

namespace IpfixParser

open Lib

/-! ### Addresses as text -/

/-- `{:02x}`. -/
def hexByte (b : UInt8) : String :=
  String.ofList [Nat.digitChar (b.toNat / 16), Nat.digitChar (b.toNat % 16)]

/-- `{:x}`. -/
def hexWord (w : UInt16) : String := String.ofList (Nat.toDigits 16 w.toNat)

/-- `fmt_mac`. -/
def fmtMac (b : Bytes) : Option String :=
  if b.length ≠ 6 then none else some (":".intercalate (b.map hexByte))

/-- `Ipv4Addr`'s `Display`. -/
def ipv4Text (b : Bytes) : String := ".".intercalate (b.map fun x => toString x.toNat)

/-- `fmt_ipv4`. -/
def fmtIpv4 (b : Bytes) : Option String := if b.length = 4 then some (ipv4Text b) else none

/-- `Ipv6Addr::segments`. -/
def segments : Bytes → List UInt16
  | hi :: lo :: rest => u16FromBe [hi, lo] :: segments rest
  | _ => []

/-- A run of segments. -/
structure Span where
  start : Nat
  len : Nat
  deriving Repr, DecidableEq

/-- The loop body that looks for the longest run of zeros: `longest` and `current`. -/
def spanStep (spans : Span × Span) (x : UInt16 × Nat) : Span × Span :=
  let (longest, current) := spans
  if x.1 = 0 then
    let start := if current.len = 0 then x.2 else current.start
    let current : Span := ⟨start, current.len + 1⟩
    (if current.len > longest.len then current else longest, current)
  else (longest, ⟨0, 0⟩)

/-- The first of the longest runs of zeros. -/
def zeroes (segments : List UInt16) : Span := (segments.zipIdx.foldl spanStep (⟨0, 0⟩, ⟨0, 0⟩)).1

/-- `fmt_subslice`. -/
def segmentsText (chunk : List UInt16) : String := ":".intercalate (chunk.map hexWord)

/-- `Ipv6Addr`'s `Display`. -/
def ipv6Text (b : Bytes) : String :=
  -- `to_ipv4_mapped`
  if b.take 12 = [0, 0, 0, 0, 0, 0, 0, 0, 0, 0, 255, 255] then "::ffff:" ++ ipv4Text (b.drop 12)
  else
    let segments := segments b
    let zeroes := zeroes segments
    if zeroes.len > 1 then
      segmentsText (segments.take zeroes.start) ++ "::" ++
        segmentsText (segments.drop (zeroes.start + zeroes.len))
    else segmentsText segments

/-- `fmt_ipv6`. -/
def fmtIpv6 (b : Bytes) : Option String := if b.length = 16 then some (ipv6Text b) else none

/-! ### Flows -/

/-- `Flow`. -/
@[ext]
structure Flow where
  version : String
  srcAddr : Option String
  dstAddr : Option String
  nextHop : Option String
  srcPort : Option UInt16
  dstPort : Option UInt16
  protocol : Option UInt8
  tcpFlags : Option UInt8
  octets : Option UInt64
  packets : Option UInt64
  ingressIf : Option UInt32
  egressIf : Option UInt32
  srcMac : Option String
  dstMac : Option String
  flowStartMs : Option UInt64
  flowEndMs : Option UInt64
  deriving Repr, DecidableEq

/-- `Flow::default()`. -/
def Flow.default : Flow where
  version := ""
  srcAddr := none
  dstAddr := none
  nextHop := none
  srcPort := none
  dstPort := none
  protocol := none
  tcpFlags := none
  octets := none
  packets := none
  ingressIf := none
  egressIf := none
  srcMac := none
  dstMac := none
  flowStartMs := none
  flowEndMs := none

/-- `FlowRecord`. -/
structure FlowRecord where
  observationDomain : UInt32
  exportTime : UInt32
  sequence : UInt32
  flow : Flow
  deriving Repr, DecidableEq

namespace id

def octetDeltaCount : UInt16 := 1
def packetDeltaCount : UInt16 := 2
def protocolIdentifier : UInt16 := 4
def tcpControlBits : UInt16 := 6
def sourceTransportPort : UInt16 := 7
def sourceIpv4Address : UInt16 := 8
def ingressInterface : UInt16 := 10
def destinationTransportPort : UInt16 := 11
def destinationIpv4Address : UInt16 := 12
def egressInterface : UInt16 := 14
def ipNextHopIpv4Address : UInt16 := 15
def sourceIpv6Address : UInt16 := 27
def destinationIpv6Address : UInt16 := 28
def sourceMacAddress : UInt16 := 56
def ipNextHopIpv6Address : UInt16 := 62
def destinationMacAddress : UInt16 := 80
def flowStartMilliseconds : UInt16 := 152
def flowEndMilliseconds : UInt16 := 153

end id

/-- The `match f.information_element_id` of `populate_flow`. -/
def Flow.project (flow : Flow) (f : FieldValue) : Flow :=
  if f.informationElementId = id.sourceIpv4Address then
    { flow with version := "v4", srcAddr := fmtIpv4 f.data }
  else if f.informationElementId = id.destinationIpv4Address then { flow with dstAddr := fmtIpv4 f.data }
  else if f.informationElementId = id.ipNextHopIpv4Address then { flow with nextHop := fmtIpv4 f.data }
  else if f.informationElementId = id.sourceIpv6Address then
    { flow with version := "v6", srcAddr := fmtIpv6 f.data }
  else if f.informationElementId = id.destinationIpv6Address then { flow with dstAddr := fmtIpv6 f.data }
  else if f.informationElementId = id.ipNextHopIpv6Address then { flow with nextHop := fmtIpv6 f.data }
  else if f.informationElementId = id.sourceTransportPort then { flow with srcPort := f.asU16 }
  else if f.informationElementId = id.destinationTransportPort then { flow with dstPort := f.asU16 }
  else if f.informationElementId = id.protocolIdentifier then { flow with protocol := f.asU8 }
  else if f.informationElementId = id.tcpControlBits then { flow with tcpFlags := f.asU8 }
  else if f.informationElementId = id.octetDeltaCount then { flow with octets := f.asU64 }
  else if f.informationElementId = id.packetDeltaCount then { flow with packets := f.asU64 }
  else if f.informationElementId = id.ingressInterface then { flow with ingressIf := f.asU32 }
  else if f.informationElementId = id.egressInterface then { flow with egressIf := f.asU32 }
  else if f.informationElementId = id.sourceMacAddress then { flow with srcMac := fmtMac f.data }
  else if f.informationElementId = id.destinationMacAddress then { flow with dstMac := fmtMac f.data }
  else if f.informationElementId = id.flowStartMilliseconds then { flow with flowStartMs := f.asU64 }
  else if f.informationElementId = id.flowEndMilliseconds then { flow with flowEndMs := f.asU64 }
  else flow

/-- The loop body of `populate_flow`. -/
def populateField (field : Result FieldValue) (flow : Flow) : Outcome Unfinished (ForInStep Flow) :=
  match field with
  | .ok f => return .yield (flow.project f)
  | .error _ => return .yield flow

/-- `populate_flow`. The iterator gives an item for each specifier of the template. -/
def populateFlow (tg : Target) (record : DataRecord) (flow : Flow) : Outcome Unfinished Flow := do
  let (flow, _) ← breakLoop (FieldIter.next tg) populateField (record.template.fields.length + 1)
    record.fields flow
  return flow

/-! ### The collector -/

/-- A line that the collector prints. -/
inductive Printed where
  | json (out : FlowRecord)
  | stderr (text : String)
  deriving Repr, DecidableEq

/-- `emitted`, and the lines printed so far. -/
structure Emitted where
  emitted : Nat
  lines : List Printed
  deriving Repr, DecidableEq

/-- What the collector does with what it sees. -/
def Emitted.see (tg : Target) (header : MessageHeader) (acc : Emitted) : Seen → Outcome Unfinished Emitted
  | .setError e => return { acc with lines := acc.lines ++ [.stderr s!"set decode error: {e}"] }
  | .record record => do
    let flow ← populateFlow tg record .default
    let out : FlowRecord := ⟨header.observationDomainId, header.exportTime, header.sequenceNumber, flow⟩
    let emitted ← usizeAdd tg acc.emitted 1
    return ⟨emitted, acc.lines ++ [.json out]⟩
  | _ => return acc

section collect

variable {M : Type} [LruMap M (TemplateKey Unit) OwnedTemplate]

/-- The body of the loop over the payloads. -/
def collect (tg : Target) (fuel : Nat) (buf : Bytes) (acc : Emitted) (st : CollectorState M) :
    Outcome Unfinished (Emitted × CollectorState M) := do
  match ← (MessageHeader.decode buf).attempt with
  | .error e => return ({ acc with lines := acc.lines ++ [.stderr s!"header decode error: {e}"] }, st)
  | .ok (header, setsBuf) =>
    collectSets (Emitted.see tg header) tg fuel () header.observationDomainId setsBuf acc st

/-- The loop over the payloads. -/
def collectAll (tg : Target) (fuel : Nat) :
    List Bytes → Emitted → CollectorState M → Outcome Unfinished (Emitted × CollectorState M)
  | [], acc, st => return (acc, st)
  | buf :: payloads, acc, st => do
    let (acc, st) ← collect tg fuel buf acc st
    collectAll tg fuel payloads acc st

/-- `main`, from the payloads on: the lines before the one that counts them. -/
def emittedFor (M : Type) [LruMap M (TemplateKey Unit) OwnedTemplate] (tg : Target) (fuel : Nat)
    (payloads : List Bytes) : Outcome Unfinished (List Printed) := do
  let (acc, _) ← collectAll tg fuel payloads ⟨0, []⟩ (.start : CollectorState M)
  return acc.lines ++ [.stderr s!"emitted {acc.emitted} flow records"]

end collect

end IpfixParser

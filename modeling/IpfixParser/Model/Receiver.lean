import IpfixParser.Lib.Loop
import IpfixParser.Model.Record

/-!
# Collectors that carry on

`examples/udp_receiver.rs` and `examples/json_collector.rs` go through a datagram in the same way:
what does not decode is passed over, the templates go into the store under the datagram's session, and
the scratch buffer is used again for the next one. They differ in what they do with what they see, so
the loops take that as a parameter `on`. The receiver follows, with the lines it prints.
-/

namespace IpfixParser

open Lib

/-- What a collector comes across in a message. -/
inductive Seen where
  | setError (e : Error)
  | template (kind : TemplateSetKind) (record : TemplateRecord) (outcome : InsertOutcome)
  | templateError (kind : TemplateSetKind) (e : Error)
  | unknownTemplate (id : TemplateId)
  | record (record : DataRecord)
  | recordError (e : Error)
  deriving Repr, DecidableEq

/-- What a collector keeps from one datagram to the next. -/
structure CollectorState (M : Type) where
  store : SessionTemplateStore M
  fbuf : List FieldSpecifier
  deriving Repr, DecidableEq

/-! ### The loops over a message -/

section loops

variable {M K β : Type} [LruMap M (TemplateKey K) OwnedTemplate]
  (on : β → Seen → Outcome Unfinished β)

/-- The body of the loop over a template set. -/
def collectTemplate (session : K) (odid : UInt32) (kind : TemplateSetKind)
    (item : Result TemplateRecord) (acc : β × SessionTemplateStore M) :
    Outcome Unfinished (ForInStep (β × SessionTemplateStore M)) :=
  match item with
  | .ok record => do
    let (outcome, _, store) := acc.2.insert session odid record
    return .yield (← on acc.1 (.template kind record outcome), store)
  | .error e => do
    return .yield (← on acc.1 (.templateError kind e), acc.2)

/-- The loop over a template set. -/
def collectTemplates (fuel : Nat) (session : K) (odid : UInt32) (kind : TemplateSetKind)
    (records : Bytes) (acc : β) (st : CollectorState M) :
    Outcome Unfinished (β × CollectorState M) := do
  let ((acc, store), iter) ← breakLoop TemplateSetIter.next (collectTemplate on session odid kind) fuel
    (.new records st.fbuf kind) (acc, st.store)
  return (acc, { store, fbuf := iter.fieldsBuf })

/-- The body of the loop over a data set. -/
def collectRecord (item : Result DataRecord) (acc : β) : Outcome Unfinished (ForInStep β) :=
  match item with
  | .ok record => do return .yield (← on acc (.record record))
  | .error e => do return .done (← on acc (.recordError e))

/-- The loop over a data set. -/
def collectRecords (tg : Target) (fuel : Nat) (records : Bytes) (template : TemplateRef) (acc : β) :
    Outcome Unfinished β := do
  let iter ← (DataRecordIter.new tg records template).lift
  let (acc, _) ← breakLoop (DataRecordIter.next tg) (collectRecord on) fuel iter acc
  return acc

/-- The `match set.kind`. -/
def collectSet (tg : Target) (fuel : Nat) (session : K) (odid : UInt32) (set : Set) (acc : β)
    (st : CollectorState M) : Outcome Unfinished (β × CollectorState M) :=
  match set.kind with
  | .template => collectTemplates on fuel session odid .template set.records acc st
  | .optionsTemplate => collectTemplates on fuel session odid .optionsTemplate set.records acc st
  | .data tid =>
    match (st.store.view session).get odid tid with
    | none => do return (← on acc (.unknownTemplate tid), st)
    | some template => do return (← collectRecords on tg fuel set.records template acc, st)

/-- The body of the loop over the sets. -/
def collectItem (tg : Target) (fuel : Nat) (session : K) (odid : UInt32) (item : Result Set)
    (acc : β × CollectorState M) : Outcome Unfinished (ForInStep (β × CollectorState M)) :=
  match item with
  | .ok set => do return .yield (← collectSet on tg fuel session odid set acc.1 acc.2)
  | .error e => do return .done (← on acc.1 (.setError e), acc.2)

/-- The loop over the sets. -/
def collectSets (tg : Target) (fuel : Nat) (session : K) (odid : UInt32) (setsBuf : Bytes) (acc : β)
    (st : CollectorState M) : Outcome Unfinished (β × CollectorState M) := do
  let (acc, _) ← breakLoop SetIter.next (collectItem on tg fuel session odid) fuel (.new setsBuf)
    (acc, st)
  return acc

end loops

/-! ### `udp_receiver.rs` -/

/-- A line printed with `println!` or `eprintln!`. -/
inductive Line where
  | stdout (text : String)
  | stderr (text : String)
  deriving Repr, DecidableEq

/-- `templates`, `records` and the lines printed so far. -/
structure Tally where
  templates : Nat
  records : Nat
  lines : List Line
  deriving Repr, DecidableEq

/-- One line more on the standard error. -/
def Tally.eprintln (t : Tally) (text : String) : Tally := { t with lines := t.lines ++ [.stderr text] }

section receiver

variable {P K M : Type} [ToString P] [LruMap M (TemplateKey K) OwnedTemplate]

/-- What the receiver does with what it sees. -/
def Tally.see (tg : Target) (peer : P) (t : Tally) : Seen → Outcome Unfinished Tally
  | .setError e => return t.eprintln s!"{peer}: set decode error: {e}"
  | .template _ _ .inserted => do return { t with templates := ← usizeAdd tg t.templates 1 }
  | .template _ _ .alreadyPresent => do return { t with templates := ← usizeAdd tg t.templates 1 }
  | .template .template record .collision =>
    let id := record.id
    return t.eprintln s!"{peer}: template id {id} collision (RFC 7011 §8); ignoring"
  | .template .optionsTemplate record .collision =>
    let id := record.id
    return t.eprintln s!"{peer}: options template id {id} collision (RFC 7011 §8); ignoring"
  | .templateError .template e => return t.eprintln s!"{peer}: template error: {e}"
  | .templateError .optionsTemplate e => return t.eprintln s!"{peer}: options template error: {e}"
  | .unknownTemplate tid => return t.eprintln s!"{peer}: data set for unknown template {tid}"
  | .record _ => do return { t with records := ← usizeAdd tg t.records 1 }
  | .recordError e => return t.eprintln s!"{peer}: record decode error: {e}"

/-- The line printed for a message. -/
def Tally.summary (peer : P) (header : MessageHeader) (t : Tally) : String :=
  let odid := header.observationDomainId
  let seq := header.sequenceNumber
  let len := header.length
  let templates := t.templates
  let records := t.records
  s!"{peer} odid={odid} seq={seq} len={len} templates+={templates} records+={records}"

/-- The body of the receiver's loop, for a datagram of `peer`: the lines it prints, and what it keeps.
Sessions are the peers' addresses without their ports. -/
def receive (tg : Target) (fuel : Nat) (ip : P → K) (peer : P) (datagram : Bytes)
    (st : CollectorState M) : Outcome Unfinished (List Line × CollectorState M) := do
  match ← (MessageHeader.decode datagram).attempt with
  | .error e => return ([.stderr s!"{peer}: header decode error: {e}"], st)
  | .ok (header, setsBuf) =>
    let (tally, st) ← collectSets (Tally.see tg peer) tg fuel (ip peer) header.observationDomainId
      setsBuf ⟨0, 0, []⟩ st
    return (tally.lines ++ [.stdout (tally.summary peer header)], st)

/-- The receiver's loop on the datagrams that come in: what is printed for each of them. -/
def receiveAll (tg : Target) (fuel : Nat) (ip : P → K) :
    List (P × Bytes) → CollectorState M → Outcome Unfinished (List (List Line) × CollectorState M)
  | [], st => return ([], st)
  | (peer, datagram) :: datagrams, st => do
    let (lines, st) ← receive tg fuel ip peer datagram st
    let (rest, st) ← receiveAll tg fuel ip datagrams st
    return (lines :: rest, st)

/-- What the receiver starts with. -/
def CollectorState.start : CollectorState M := ⟨.new, List.replicate 128 .empty⟩

end receiver

end IpfixParser

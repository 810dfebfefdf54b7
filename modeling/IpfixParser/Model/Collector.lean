import IpfixParser.Model.Record

/-!
# Walking a message

`tests/fixture_walk.rs`: how a collector uses the crate on one datagram. It stores the templates it
finds and iterates over the fields of the data records whose template it knows; anything that does
not decode makes it panic. What the walk sees is returned, set by set.
-/

namespace IpfixParser

open Lib

/-- What the walk sees of a set. -/
inductive WalkedSet where
  | templates (kind : TemplateSetKind) (records : List TemplateRecord)
  | data (id : TemplateId) (records : List (List FieldValue))
  | unknown (id : TemplateId)
  deriving Repr, DecidableEq

/-- The loop over the fields of a record. -/
def walkFields (tg : Target) (fuel : Nat) (record : DataRecord) : Outcome Empty (List FieldValue) :=
  whileLet (FieldIter.next tg) (fun seen item => do
    let field ← .expect item
    return seen ++ [field]) fuel record.fields []

/-- The loop over the records of a data set. -/
def walkRecords (tg : Target) (fuel : Nat) (records : Bytes) (template : TemplateRef) :
    Outcome Empty (List (List FieldValue)) := do
  let it ← DataRecordIter.new tg records template
  whileLet (DataRecordIter.next tg) (fun seen item => do
    let record ← .expect item
    let fields ← walkFields tg fuel record
    return seen ++ [fields]) fuel it []

section store

variable {M K : Type} [LruMap M (TemplateKey K) OwnedTemplate]

/-- The loop over the records of a template set. -/
def walkTemplates (fuel : Nat) (session : K) (odid : UInt32) (fbuf : List FieldSpecifier)
    (kind : TemplateSetKind) (records : Bytes) (store : SessionTemplateStore M) :
    Outcome Empty (List TemplateRecord × SessionTemplateStore M) :=
  whileLet TemplateSetIter.next (fun (seen, store) item => do
    let record ← .expect item
    let (_, _, store') := store.insert session odid record
    return (seen ++ [record], store')) fuel (.new records fbuf kind) ([], store)

/-- The body of the loop over a template set in `examples/json_collector.rs` and
`examples/udp_receiver.rs`, with the outcome of the insert. What does not decode is passed over. -/
def feedItem (session : K) (odid : UInt32)
    (acc : List (TemplateRecord × InsertOutcome) × SessionTemplateStore M) :
    Result TemplateRecord →
      Outcome Empty (List (TemplateRecord × InsertOutcome) × SessionTemplateStore M)
  | .ok record =>
    let (outcome, _, store') := acc.2.insert session odid record
    return (acc.1 ++ [(record, outcome)], store')
  | .error _ => return acc

/-- The loop over a template set in `examples/json_collector.rs` and `examples/udp_receiver.rs`. -/
def feedTemplates (fuel : Nat) (session : K) (odid : UInt32) (fbuf : List FieldSpecifier)
    (kind : TemplateSetKind) (records : Bytes) (store : SessionTemplateStore M) :
    Outcome Empty (List (TemplateRecord × InsertOutcome) × SessionTemplateStore M) :=
  whileLet TemplateSetIter.next (feedItem session odid) fuel (.new records fbuf kind) ([], store)

/-- The `match set.kind`. -/
def walkSet (tg : Target) (fuel : Nat) (session : K) (odid : UInt32) (fbuf : List FieldSpecifier)
    (set : Set) (store : SessionTemplateStore M) :
    Outcome Empty (WalkedSet × SessionTemplateStore M) :=
  match set.kind with
  | .template => do
    let (seen, store') ← walkTemplates fuel session odid fbuf .template set.records store
    return (.templates .template seen, store')
  | .optionsTemplate => do
    let (seen, store') ← walkTemplates fuel session odid fbuf .optionsTemplate set.records store
    return (.templates .optionsTemplate seen, store')
  | .data tid =>
    match (store.view session).get odid tid with
    | none => return (.unknown tid, store)
    | some template => do
      let seen ← walkRecords tg fuel set.records template
      return (.data tid seen, store)

/-- The body of the loop over the sets. -/
def walkNext (tg : Target) (fuel : Nat) (session : K) (odid : UInt32) (fbuf : List FieldSpecifier)
    (acc : List WalkedSet × SessionTemplateStore M) (set : Set) :
    Outcome Empty (List WalkedSet × SessionTemplateStore M) := do
  let (walked, store') ← walkSet tg fuel session odid fbuf set acc.2
  return (acc.1 ++ [walked], store')

/-- The body of the loop over the datagrams. -/
def walkMessage (tg : Target) (fuel : Nat) (session : K) (fbuf : List FieldSpecifier) (buf : Bytes)
    (store : SessionTemplateStore M) :
    Outcome Empty (MessageHeader × List WalkedSet × SessionTemplateStore M) := do
  let (header, setsBuf) ← .expect (← (MessageHeader.decode buf).attempt)
  let (seen, store') ← whileLet SetIter.next (fun acc item => do
    let set ← .expect item
    walkNext tg fuel session header.observationDomainId fbuf acc set) fuel (.new setsBuf) ([], store)
  return (header, seen, store')

end store

end IpfixParser

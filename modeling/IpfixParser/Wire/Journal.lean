import IpfixParser.Model.Receiver
import IpfixParser.Wire.Record

/-!
# What a message says

The abstract side of a collector. `templatesIn`, `recordsIn` and `setsIn` are the frames of a buffer as
lists. A `Dictionary` is anything that template definitions are looked up in and added to, and
`Dictionary.journal` is what a collector with that dictionary comes across in the sets of a message, in
order. There are no iterators, scratch buffers or bounds on loops here; a message whose data makes a
collector read records of no bytes for ever has no journal.

`SessionTemplateStore.dictionary` is the store as one session uses it. `Knowledge` is what remains when
nothing is ever dropped: the first definition of every template id.
-/

namespace IpfixParser

open Lib

instance : DecidablePred setPadding := fun b => inferInstanceAs (Decidable (b.length < setHeaderLen))

instance (kind : TemplateSetKind) : DecidablePred kind.padding := fun b =>
  inferInstanceAs (Decidable (b.length < kind.minHeader))

instance (t : TemplateRef) : DecidablePred t.padding := fun b =>
  inferInstanceAs (Decidable (b.length < t.minSize))

/-- The sets of a payload. -/
def setsIn (payload : Bytes) : List (Result Set) :=
  readFrames setPadding Set.decode (payload.length + 1) payload

/-- The template records of a set, of no more than `n` fields each. -/
def templatesIn (n : Nat) (kind : TemplateSetKind) (records : Bytes) : List (Result TemplateRecord) :=
  readFrames kind.padding (kind.decode n) (records.length + 1) records

/-- The data records of a set. -/
def recordsIn (t : TemplateRef) (records : Bytes) : List (Result DataRecord) :=
  readFrames t.padding t.cutRecord (records.length + 1) records

/-- The template records of a set. -/
def Set.definitions (n : Nat) (set : Set) : List TemplateRecord :=
  match set.kind with
  | .template => (templatesIn n .template set.records).filterMap Except.toOption
  | .optionsTemplate => (templatesIn n .optionsTemplate set.records).filterMap Except.toOption
  | .data _ => []

/-- The template records of the sets of a message. -/
def definitionsIn (n : Nat) (items : List (Result Set)) : List TemplateRecord :=
  (items.filterMap Except.toOption).flatMap (Set.definitions n)

/-! ### Journals -/

/-- A table of template definitions, as a collector uses it. -/
structure Dictionary (T : Type) where
  define : T → UInt32 → TemplateRecord → InsertOutcome × T
  get : T → UInt32 → TemplateId → Option TemplateRef

/-- A data record, or the error that ends a data set. -/
def Seen.ofRecord : Result DataRecord → Seen
  | .ok r => .record r
  | .error e => .recordError e

namespace Dictionary

variable {T : Type} (d : Dictionary T)

/-- The records of a template set. -/
def tell (odid : UInt32) (kind : TemplateSetKind) : List (Result TemplateRecord) → T → List Seen × T
  | [], t => ([], t)
  | .ok record :: items, t =>
    let (outcome, t) := d.define t odid record
    let (seen, t) := tell odid kind items t
    (.template kind record outcome :: seen, t)
  | .error e :: items, t =>
    let (seen, t) := tell odid kind items t
    (.templateError kind e :: seen, t)

/-- A set. There is no end to the records of a template whose fields all have length 0. -/
def read (n : Nat) (odid : UInt32) (set : Set) (t : T) : Option (List Seen × T) :=
  match set.kind with
  | .template => some (d.tell odid .template (templatesIn n .template set.records) t)
  | .optionsTemplate =>
    some (d.tell odid .optionsTemplate (templatesIn n .optionsTemplate set.records) t)
  | .data tid =>
    match d.get t odid tid with
    | none => some ([.unknownTemplate tid], t)
    | some template =>
      if template.minSize = 0 then none
      else some ((recordsIn template set.records).map Seen.ofRecord, t)

/-- The sets of a message, up to the first that does not decode. -/
def journal (n : Nat) (odid : UInt32) : List (Result Set) → T → Option (List Seen × T)
  | [], t => some ([], t)
  | .error e :: _, t => some ([.setError e], t)
  | .ok set :: items, t => do
    let (seen, t) ← d.read n odid set t
    let (rest, t) ← journal n odid items t
    return (seen ++ rest, t)

end Dictionary

/-- What is observed of a datagram: an error in its header, or the header and what the message says. -/
abbrev Observed := Result (MessageHeader × List Seen)

/-- A datagram. -/
def Dictionary.observe {T : Type} (d : Dictionary T) (n : Nat) (datagram : Bytes) (t : T) :
    Option (Observed × T) :=
  match MessageHeader.decode datagram with
  | .ok (header, payload) => do
    let (seen, t) ← d.journal n header.observationDomainId (setsIn payload) t
    return (.ok (header, seen), t)
  | .err e => some (.error e, t)
  | .panic => none

/-- The template records of a datagram. -/
def taught (n : Nat) (datagram : Bytes) : List TemplateRecord :=
  match MessageHeader.decode datagram with
  | .ok (_, payload) => definitionsIn n (setsIn payload)
  | _ => []

/-- The keys that a datagram of a session has definitions for. -/
def taughtKeys {K : Type} (n : Nat) (session : K) (datagram : Bytes) : List (TemplateKey K) :=
  match MessageHeader.decode datagram with
  | .ok (header, payload) => (definitionsIn n (setsIn payload)).map fun record =>
      (session, header.observationDomainId, record.id)
  | _ => []

/-- The keys that a stream of datagrams has definitions for. -/
def streamKeys {K : Type} (n : Nat) (stream : List (K × Bytes)) : List (TemplateKey K) :=
  stream.flatMap fun x => taughtKeys n x.1 x.2

/-- The definitions of a stream, each with the key it is for. -/
def streamDefinitions {K : Type} (n : Nat) (stream : List (K × Bytes)) :
    List (TemplateKey K × TemplateRecord) :=
  stream.flatMap fun x =>
    match MessageHeader.decode x.2 with
    | .ok (header, payload) => (definitionsIn n (setsIn payload)).map fun record =>
        ((x.1, header.observationDomainId, record.id), record)
    | _ => []

/-! ### Answers -/

/-- A definition and what the store had to say to it. -/
structure Answer (K : Type) where
  key : TemplateKey K
  record : TemplateRecord
  outcome : InsertOutcome
  deriving Repr, DecidableEq

/-- The answers in a journal. -/
def answersIn {K : Type} (session : K) (odid : UInt32) (seen : List Seen) : List (Answer K) :=
  seen.filterMap fun
    | .template _ record outcome => some ⟨(session, odid, record.id), record, outcome⟩
    | _ => none

/-- The answers to a datagram. -/
def Answer.ofDatagram {K : Type} (session : K) : Observed → List (Answer K)
  | .ok (header, seen) => answersIn session header.observationDomainId seen
  | .error _ => []

/-- The answers to a stream of datagrams. -/
def answers {K : Type} (stream : List (K × Bytes)) (observed : List Observed) : List (Answer K) :=
  (List.zipWith (fun x o => Answer.ofDatagram x.1 o) stream observed).flatten

/-- The definition last taken in under a key. -/
def lastInserted {K : Type} [DecidableEq K] (key : TemplateKey K) (log : List (Answer K)) :
    Option TemplateRef :=
  log.foldl (fun last a =>
    if a.key = key ∧ a.outcome = .inserted then some (.ofRecord a.record) else last) none

/-! ### Two dictionaries -/

/-- The store as a session uses it. -/
def SessionTemplateStore.dictionary {M K : Type} [LruMap M (TemplateKey K) OwnedTemplate] (session : K) :
    Dictionary (SessionTemplateStore M) where
  define st odid record :=
    let (outcome, _, st) := st.insert session odid record
    (outcome, st)
  get st odid id := (st.view session).get odid id

/-- The answers of the store to definitions, each under its key, and the store after them. -/
def SessionTemplateStore.answerAll {M K : Type} [LruMap M (TemplateKey K) OwnedTemplate] :
    List (TemplateKey K × TemplateRecord) → SessionTemplateStore M → List (Answer K) × SessionTemplateStore M
  | [], st => ([], st)
  | (key, record) :: defs, st =>
    let (outcome, _, st) := st.insert key.1 key.2.1 record
    let (rest, st) := answerAll defs st
    (⟨key, record, outcome⟩ :: rest, st)

/-- The datagrams of a stream, each under its session, against one store. -/
def SessionTemplateStore.observeAll {M K : Type} [LruMap M (TemplateKey K) OwnedTemplate] (n : Nat) :
    List (K × Bytes) → SessionTemplateStore M → Option (List Observed × SessionTemplateStore M)
  | [], st => some ([], st)
  | (session, datagram) :: stream, st => do
    let (observed, st) ← (dictionary session).observe n datagram st
    let (rest, st) ← observeAll n stream st
    return (observed :: rest, st)

/-- What a session has defined, by ODID and template id. -/
abbrev Knowledge := UInt32 → TemplateId → Option TemplateRef

/-- Adding a definition: the first one for its id stays. -/
def Knowledge.define (k : Knowledge) (odid : UInt32) (record : TemplateRecord) :
    InsertOutcome × Knowledge :=
  match k odid record.id with
  | none => (.inserted, fun odid' id =>
      if odid' = odid ∧ id = record.id then some (.ofRecord record) else k odid' id)
  | some t =>
    if t.scopeFieldCount = record.scopeFieldCount ∧ t.fields = record.fields then (.alreadyPresent, k)
    else (.collision, k)

/-- Unbounded memory as a dictionary. -/
def Knowledge.dictionary : Dictionary Knowledge where
  define := Knowledge.define
  get k := k

/-- Nothing is known yet. -/
def Knowledge.empty : Knowledge := fun _ _ => none

/-- The datagrams of one session against what it has defined. -/
def Knowledge.observeAll (n : Nat) : List Bytes → Knowledge → Option (List Observed × Knowledge)
  | [], k => some ([], k)
  | datagram :: stream, k => do
    let (observed, k) ← Knowledge.dictionary.observe n datagram k
    let (rest, k) ← observeAll n stream k
    return (observed :: rest, k)

end IpfixParser

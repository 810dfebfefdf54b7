import IpfixParser.Lib.Lru
import IpfixParser.Model.Template

/-!
# The template store

`src/store.rs`: the session-keyed template store. The LRU map under it is a parameter `M` with the
interface `LruMap`; sessions are any type `K` with decidable equality. What the store logs is part
of what its operations return.
-/

namespace IpfixParser

open Lib

/-- `TemplateRef`. -/
structure TemplateRef where
  id : TemplateId
  scopeFieldCount : UInt16
  fields : List FieldSpecifier
  deriving Repr, DecidableEq

/-- `TemplateRef::from(record)`. -/
def TemplateRef.ofRecord (r : TemplateRecord) : TemplateRef := ⟨r.id, r.scopeFieldCount, r.fields⟩

/-- `InsertOutcome`. -/
inductive InsertOutcome where
  | inserted
  | alreadyPresent
  | collision
  deriving Repr, DecidableEq

/-- `OwnedTemplate`. -/
structure OwnedTemplate where
  id : TemplateId
  scopeFieldCount : UInt16
  fields : List FieldSpecifier
  deriving Repr, DecidableEq

/-- `DEFAULT_CAPACITY`. -/
def defaultCapacity : UInt32 := 4096

/-- One line written with the `log` crate at the `warn` level. -/
structure Warning where
  target : String
  message : String
  deriving Repr, DecidableEq

/-- The warning of an insert into a full store. -/
def evictionWarning (cap : UInt32) : Warning where
  target := "ipfix_parser::store"
  message := s!"SessionTemplateStore at capacity ({cap}); evicting least-recently-used template to insert a new one — consider increasing the capacity"

/-- The key of a stored template: `(session, odid, id)`. -/
abbrev TemplateKey (K : Type) := K × UInt32 × TemplateId

/-- `SessionTemplateStore`. -/
structure SessionTemplateStore (M : Type) where
  map : M
  deriving Repr, DecidableEq

namespace SessionTemplateStore

variable {M K : Type} [LruMap M (TemplateKey K) OwnedTemplate]

/-- `with_capacity`. -/
def withCapacity (capacity : UInt32) : SessionTemplateStore M := ⟨LruMap.new capacity⟩

/-- `new`. -/
def new : SessionTemplateStore M := withCapacity defaultCapacity

/-- `len`. -/
def len (st : SessionTemplateStore M) : Nat := LruMap.len st.map

/-- `capacity`. -/
def capacity (st : SessionTemplateStore M) : UInt32 := LruMap.maxLength st.map

/-- `insert`, with the warnings it logs. -/
def insert (st : SessionTemplateStore M) (session : K) (odid : UInt32) (record : TemplateRecord) :
    InsertOutcome × List Warning × SessionTemplateStore M :=
  let key : TemplateKey K := (session, odid, record.id)
  match LruMap.peek st.map key with
  | some existing =>
    let same := existing.scopeFieldCount == record.scopeFieldCount && existing.fields == record.fields
    if !same then (.collision, [], st)
    else (.alreadyPresent, [], ⟨(LruMap.get st.map key).2⟩)
  | none =>
    let cap := LruMap.maxLength st.map
    let warnings := if cap > 0 ∧ LruMap.len st.map ≥ cap.toNat then [evictionWarning cap] else []
    let owned : OwnedTemplate := ⟨record.id, record.scopeFieldCount, record.fields⟩
    (.inserted, warnings, ⟨(LruMap.insert st.map key owned).2⟩)

/-- `remove`. -/
def remove (st : SessionTemplateStore M) (session : K) (odid : UInt32) (id : TemplateId) :
    SessionTemplateStore M :=
  ⟨(LruMap.remove st.map (session, odid, id)).2⟩

/-- `remove_session`. -/
def removeSession [DecidableEq K] (st : SessionTemplateStore M) (session : K) :
    SessionTemplateStore M :=
  let toRemove := ((LruMap.iter st.map).filter fun e => e.1.1 = session).map Prod.fst
  ⟨toRemove.foldl (fun map key => (LruMap.remove map key).2) st.map⟩

end SessionTemplateStore

/-- `SessionView`. -/
structure SessionView (M K : Type) where
  store : SessionTemplateStore M
  session : K

/-- `view`. -/
def SessionTemplateStore.view {M K : Type} (st : SessionTemplateStore M) (session : K) :
    SessionView M K :=
  ⟨st, session⟩

/-- `<SessionView as TemplateStore>::get`. -/
def SessionView.get {M K : Type} [LruMap M (TemplateKey K) OwnedTemplate] (v : SessionView M K)
    (odid : UInt32) (id : TemplateId) : Option TemplateRef :=
  (LruMap.peek v.store.map (v.session, odid, id)).map fun t => ⟨t.id, t.scopeFieldCount, t.fields⟩

end IpfixParser

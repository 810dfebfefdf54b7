import IpfixParser.Model.Store

/-!
# The template store as a table of definitions

What the store is for: a table of template definitions, the most recently accepted one first, of at
most `cap` entries. `TableStep` says what each operation may do to the table, one constructor for
each way it can go; `SessionTemplateStore.step_table` is the refinement, that the store's operations
do these steps. `events` is the history of a run, operation by operation.
-/

namespace IpfixParser

open Lib

/-- The entries of the store, most recently accepted first. -/
abbrev Table (K : Type) := List (TemplateKey K × OwnedTemplate)

/-- The definition a record makes. -/
def OwnedTemplate.ofRecord (r : TemplateRecord) : OwnedTemplate := ⟨r.id, r.scopeFieldCount, r.fields⟩

/-- What a view shows of a stored definition. -/
def OwnedTemplate.toRef (t : OwnedTemplate) : TemplateRef := ⟨t.id, t.scopeFieldCount, t.fields⟩

/-- Two definitions agree when their scope counts and fields do. -/
def OwnedTemplate.Agrees (t : OwnedTemplate) (r : TemplateRecord) : Prop :=
  t.scopeFieldCount = r.scopeFieldCount ∧ t.fields = r.fields

instance (t : OwnedTemplate) (r : TemplateRecord) : Decidable (t.Agrees r) :=
  inferInstanceAs (Decidable (_ ∧ _))

/-- An operation on the store. -/
inductive StoreOp (K : Type) where
  | insert (session : K) (odid : UInt32) (record : TemplateRecord)
  | remove (session : K) (odid : UInt32) (id : TemplateId)
  | removeSession (session : K)
  | get (session : K) (odid : UInt32) (id : TemplateId)
  deriving DecidableEq

/-- The session an operation is for. -/
def StoreOp.session {K : Type} : StoreOp K → K
  | insert s _ _ => s
  | remove s _ _ => s
  | removeSession s => s
  | get s _ _ => s

/-- What an operation returns to its caller. -/
inductive StoreResponse where
  | outcome (o : InsertOutcome)
  | done
  | found (t : Option TemplateRef)
  deriving DecidableEq

/-- The ways an operation can go. -/
inductive TableStep {K : Type} [DecidableEq K] (cap : UInt32) :
    Table K → StoreOp K → StoreResponse → List Warning → Table K → Prop
  | refreshed {l s odid r t} : findKey (s, odid, r.id) l = some t → t.Agrees r →
      TableStep cap l (.insert s odid r) (.outcome .alreadyPresent) []
        (((s, odid, r.id), t) :: eraseKey (s, odid, r.id) l)
  | collided {l s odid r t} : findKey (s, odid, r.id) l = some t → ¬ t.Agrees r →
      TableStep cap l (.insert s odid r) (.outcome .collision) [] l
  | rejected {l s odid r} : findKey (s, odid, r.id) l = none → cap = 0 →
      TableStep cap l (.insert s odid r) (.outcome .inserted) [] l
  | added {l s odid r} : findKey (s, odid, r.id) l = none → l.length < cap.toNat →
      TableStep cap l (.insert s odid r) (.outcome .inserted) []
        (((s, odid, r.id), .ofRecord r) :: l)
  | evicted {l s odid r} : findKey (s, odid, r.id) l = none → cap ≠ 0 → l.length = cap.toNat →
      TableStep cap l (.insert s odid r) (.outcome .inserted) [evictionWarning cap]
        (((s, odid, r.id), .ofRecord r) :: l.dropLast)
  | removed {l s odid id} :
      TableStep cap l (.remove s odid id) .done [] (eraseKey (s, odid, id) l)
  | removedSession {l s} :
      TableStep cap l (.removeSession s) .done [] (l.filter fun e => e.1.1 ≠ s)
  | looked {l s odid id} :
      TableStep cap l (.get s odid id) (.found ((findKey (s, odid, id) l).map OwnedTemplate.toRef)) [] l

theorem TableStep.length_le {K : Type} [DecidableEq K] {cap : UInt32} {l l' : Table K}
    {op : StoreOp K} {response : StoreResponse} {warnings : List Warning}
    (h : TableStep cap l op response warnings l') (hlen : l.length ≤ cap.toNat) :
    l'.length ≤ cap.toNat := by
  cases h with
  | refreshed hsome =>
    have hpos := List.length_pos_of_mem (mem_of_findKey hsome)
    have hlt := length_eraseKey_lt (mem_of_findKey hsome)
    simp only [List.length_cons]
    omega
  | collided => exact hlen
  | rejected => exact hlen
  | added hnone hroom => exact hroom
  | evicted hnone hcap hfull =>
    have hpos : 0 < cap.toNat := Nat.pos_of_ne_zero fun h0 => hcap (UInt32.toNat_inj.mp h0)
    simp only [List.length_cons, List.length_dropLast]
    omega
  | removed => exact Nat.le_trans (eraseKey_sublist ..).length_le hlen
  | removedSession => exact Nat.le_trans List.filter_sublist.length_le hlen
  | looked => exact hlen

namespace SessionTemplateStore

variable {M K : Type} [DecidableEq K] [LruMap M (TemplateKey K) OwnedTemplate]

/-! ### Runs -/

/-- One operation: its response, what it logs, and the store after it. -/
def step (st : SessionTemplateStore M) : StoreOp K → StoreResponse × List Warning × SessionTemplateStore M
  | .insert s odid r =>
    let (o, warnings, st') := st.insert s odid r
    (.outcome o, warnings, st')
  | .remove s odid id => (.done, [], st.remove s odid id)
  | .removeSession s => (.done, [], st.removeSession s)
  | .get s odid id => (.found ((st.view s).get odid id), [], st)

/-- One step of a history. -/
structure Event (M K : Type) where
  before : SessionTemplateStore M
  op : StoreOp K
  response : StoreResponse
  warnings : List Warning
  after : SessionTemplateStore M

/-- The event of an operation. -/
def event (st : SessionTemplateStore M) (op : StoreOp K) : Event M K :=
  ⟨st, op, (st.step op).1, (st.step op).2.1, (st.step op).2.2⟩

/-- The store after a run. -/
def run (st : SessionTemplateStore M) (ops : List (StoreOp K)) : SessionTemplateStore M :=
  ops.foldl (fun st op => (st.step op).2.2) st

/-- The history of a run. -/
def events : SessionTemplateStore M → List (StoreOp K) → List (Event M K)
  | _, [] => []
  | st, op :: ops => st.event op :: events (st.step op).2.2 ops

variable {st : SessionTemplateStore M} {op : StoreOp K} {ops : List (StoreOp K)}

theorem run_append (st : SessionTemplateStore M) (ops ops' : List (StoreOp K)) :
    st.run (ops ++ ops') = (st.run ops).run ops' := List.foldl_append

theorem run_concat (st : SessionTemplateStore M) (ops : List (StoreOp K)) (op : StoreOp K) :
    st.run (ops ++ [op]) = ((st.run ops).step op).2.2 := run_append ..

theorem events_append (st : SessionTemplateStore M) (ops ops' : List (StoreOp K)) :
    st.events (ops ++ ops') = st.events ops ++ (st.run ops).events ops' := by
  induction ops generalizing st with
  | nil => rfl
  | cons op ops ih =>
    simp only [List.cons_append, events, ih]
    rfl

theorem events_concat (st : SessionTemplateStore M) (ops : List (StoreOp K)) (op : StoreOp K) :
    st.events (ops ++ [op]) = st.events ops ++ [(st.run ops).event op] := events_append ..

theorem events_eq_append {pre post : List (Event M K)} {e : Event M K}
    (h : st.events ops = pre ++ e :: post) :
    ∃ ops₁ ops₂, ops = ops₁ ++ e.op :: ops₂ ∧ st.events ops₁ = pre ∧ e = (st.run ops₁).event e.op ∧
      e.after.events ops₂ = post := by
  induction pre generalizing st ops with
  | nil =>
    cases ops with
    | nil => simp [events] at h
    | cons op ops =>
      simp only [events, List.nil_append, List.cons.injEq] at h
      obtain ⟨rfl, rfl⟩ := h
      exact ⟨[], ops, rfl, rfl, rfl, rfl⟩
  | cons e₀ pre ih =>
    cases ops with
    | nil => simp [events] at h
    | cons op ops =>
      simp only [events, List.cons_append, List.cons.injEq] at h
      obtain ⟨rfl, h⟩ := h
      obtain ⟨ops₁, ops₂, rfl, rfl, he, hpost⟩ := ih h
      exact ⟨op :: ops₁, ops₂, rfl, rfl, he, hpost⟩

/-! ### The refinement -/

/-- The table a store stands for. -/
def table (st : SessionTemplateStore M) : Table K := LruMap.order st.map

/-- What a lookup of a key through the view of its session gives. -/
def lookup (st : SessionTemplateStore M) (key : TemplateKey K) : Option TemplateRef :=
  (st.view key.1).get key.2.1 key.2.2

omit [DecidableEq K] in
theorem insert_of_collision {st : SessionTemplateStore M} {s : K} {odid : UInt32} {r : TemplateRecord}
    (h : (st.insert s odid r).1 = .collision) : (st.insert s odid r).2.2 = st := by
  rw [insert] at h ⊢
  cases hpeek : LruMap.peek st.map (s, odid, r.id) with
  | none => simp [hpeek] at h
  | some existing =>
    simp only [hpeek] at h ⊢
    split_ifs at h ⊢
    rfl

theorem after_eq_before (st : SessionTemplateStore M) (op : StoreOp K)
    (h : (∃ s odid id, op = .get s odid id) ∨ (st.step op).1 = .outcome .collision) :
    (st.step op).2.2 = st := by
  rcases h with ⟨s, odid, id, rfl⟩ | h
  · rfl
  · cases op with
    | insert s odid r =>
      apply insert_of_collision
      simpa [step] using h
    | remove => simp [step] at h
    | removeSession => simp [step] at h
    | get => rfl

variable [LawfulLruMap M]

@[simp] theorem table_withCapacity (c : UInt32) : (withCapacity c : SessionTemplateStore M).table = [] :=
  LawfulLruMap.order_new c

@[simp] theorem capacity_withCapacity (c : UInt32) :
    (withCapacity c : SessionTemplateStore M).capacity = c :=
  LawfulLruMap.maxLength_new c

theorem len_eq (st : SessionTemplateStore M) : st.len = st.table.length := LawfulLruMap.len_eq _

theorem nodup_table (st : SessionTemplateStore M) : (st.table.map Prod.fst).Nodup :=
  LawfulLruMap.nodup _

theorem get_view (st : SessionTemplateStore M) (s : K) (odid : UInt32) (id : TemplateId) :
    (st.view s).get odid id = (findKey (s, odid, id) st.table).map OwnedTemplate.toRef := by
  simp only [SessionView.get, view, LawfulLruMap.peek_eq]
  rfl

theorem lookup_eq (st : SessionTemplateStore M) (key : TemplateKey K) :
    st.lookup key = (findKey key st.table).map OwnedTemplate.toRef := get_view ..

theorem mem_keys_iff {key : TemplateKey K} :
    key ∈ st.table.map Prod.fst ↔ (st.lookup key).isSome := by
  rw [lookup_eq, Option.isSome_map, findKey_isSome_iff]

theorem same_eq_decide (t : OwnedTemplate) (r : TemplateRecord) :
    (t.scopeFieldCount == r.scopeFieldCount && t.fields == r.fields) = decide (t.Agrees r) := by
  rw [Bool.eq_iff_iff, decide_eq_true_iff]
  simp [OwnedTemplate.Agrees]

theorem insert_of_some {s : K} {odid : UInt32} {r : TemplateRecord} {t : OwnedTemplate}
    (h : findKey (s, odid, r.id) st.table = some t) :
    st.insert s odid r = if t.Agrees r then (.alreadyPresent, [], ⟨(LruMap.get st.map (s, odid, r.id)).2⟩)
      else (.collision, [], st) := by
  have hpeek : LruMap.peek st.map (s, odid, r.id) = some t := by rw [LawfulLruMap.peek_eq]; exact h
  simp only [insert, hpeek, same_eq_decide]
  by_cases hagrees : t.Agrees r <;> simp [hagrees]

theorem insert_of_none {s : K} {odid : UInt32} {r : TemplateRecord}
    (h : findKey (s, odid, r.id) st.table = none) :
    st.insert s odid r = (.inserted,
      if st.capacity > 0 ∧ st.capacity.toNat ≤ st.len then [evictionWarning st.capacity] else [],
      ⟨(LruMap.insert st.map (s, odid, r.id) (.ofRecord r)).2⟩) := by
  have hpeek : LruMap.peek st.map (s, odid, r.id) = none := by rw [LawfulLruMap.peek_eq]; exact h
  simp only [insert, hpeek]
  rfl

theorem table_foldl_remove (keys : List (TemplateKey K)) (map : M) :
    LruMap.order (keys.foldl (fun map key => (LruMap.remove map key).2) map) =
      (LruMap.order map).filter fun e => e.1 ∉ keys := by
  induction keys generalizing map with
  | nil => simp
  | cons key keys ih =>
    rw [List.foldl_cons, ih, LawfulLruMap.order_remove, eraseKey, List.filter_filter]
    congr 1
    funext e
    simp [Bool.and_comm]

theorem table_removeSession (st : SessionTemplateStore M) (s : K) :
    (st.removeSession s).table = st.table.filter fun e => e.1.1 ≠ s := by
  simp only [table, removeSession, table_foldl_remove]
  apply List.filter_congr
  intro e he
  have hmem : e ∈ LruMap.iter st.map := (LawfulLruMap.iter_perm st.map).mem_iff.mpr he
  simp only [List.mem_map, List.mem_filter, decide_eq_true_eq, decide_eq_decide, ne_eq, not_iff_not]
  constructor
  · rintro ⟨e', ⟨-, hs⟩, heq⟩
    rw [← heq, hs]
  · exact fun hs => ⟨e, ⟨hmem, hs⟩, rfl⟩

theorem maxLength_foldl_remove (keys : List (TemplateKey K)) (map : M) :
    LruMap.maxLength (keys.foldl (fun map key => (LruMap.remove map key).2) map) =
      LruMap.maxLength map := by
  induction keys generalizing map with
  | nil => rfl
  | cons key keys ih => rw [List.foldl_cons, ih, LawfulLruMap.maxLength_remove]

theorem capacity_removeSession (st : SessionTemplateStore M) (s : K) :
    (st.removeSession s).capacity = st.capacity := maxLength_foldl_remove _ _

theorem capacity_step (st : SessionTemplateStore M) (op : StoreOp K) :
    (st.step op).2.2.capacity = st.capacity := by
  cases op with
  | insert s odid r =>
    cases h : findKey (s, odid, r.id) st.table with
    | some t =>
      simp only [step, insert_of_some h]
      split_ifs
      · exact LawfulLruMap.maxLength_get _ _
      · rfl
    | none =>
      simp only [step, insert_of_none h]
      exact LawfulLruMap.maxLength_insert _ _ _
  | remove s odid id => exact LawfulLruMap.maxLength_remove _ _
  | removeSession s => exact capacity_removeSession st s
  | get s odid id => rfl

/-- The operations of a store that is not over its capacity are steps of its table. -/
theorem step_table (st : SessionTemplateStore M) (op : StoreOp K)
    (hlen : st.table.length ≤ st.capacity.toNat) :
    TableStep st.capacity st.table op (st.step op).1 (st.step op).2.1 (st.step op).2.2.table := by
  cases op with
  | insert s odid r =>
    cases h : findKey (s, odid, r.id) st.table with
    | some t =>
      by_cases hagrees : t.Agrees r
      · have hpeek : LruMap.peek st.map (s, odid, r.id) = some t := by rw [LawfulLruMap.peek_eq]; exact h
        simp only [step, insert_of_some h, if_pos hagrees, table, LawfulLruMap.order_get _ _ _ hpeek]
        exact .refreshed h hagrees
      · simp only [step, insert_of_some h, if_neg hagrees]
        exact .collided h hagrees
    | none =>
      have hpeek : LruMap.peek st.map (s, odid, r.id) = none := by rw [LawfulLruMap.peek_eq]; exact h
      have hmap : LruMap.len st.map = st.table.length := LawfulLruMap.len_eq _
      simp only [step, insert_of_none h]
      by_cases hcap : st.capacity = 0
      · have horder := LawfulLruMap.order_insert_rejected st.map _ (.ofRecord r) hpeek hcap
        rw [if_neg (by simp [hcap])]
        simp only [table, horder]
        exact .rejected h hcap
      · have hpos : st.capacity > 0 := by grind
        by_cases hroom : st.table.length < st.capacity.toNat
        · have horder := LawfulLruMap.order_insert_room st.map _ (.ofRecord r) hpeek (hmap ▸ hroom)
          rw [if_neg (by rw [len_eq]; omega)]
          simp only [table, horder]
          exact .added h hroom
        · have hfull : st.table.length = st.capacity.toNat := by omega
          have horder := LawfulLruMap.order_insert_full st.map _ (.ofRecord r) hpeek hcap (hmap ▸ hfull)
          rw [if_pos ⟨hpos, by rw [len_eq]; omega⟩]
          simp only [table, horder]
          exact .evicted h hcap hfull
  | remove s odid id =>
    simp only [step, remove, table, LawfulLruMap.order_remove]
    exact .removed
  | removeSession s =>
    simp only [step, table_removeSession]
    exact .removedSession
  | get s odid id =>
    simp only [step, get_view]
    exact .looked

/-! ### Runs from an empty store -/

theorem capacity_run (st : SessionTemplateStore M) (ops : List (StoreOp K)) :
    (st.run ops).capacity = st.capacity := by
  induction ops generalizing st with
  | nil => rfl
  | cons op ops ih => exact (ih _).trans (capacity_step st op)

theorem length_run (st : SessionTemplateStore M) (ops : List (StoreOp K))
    (hlen : st.table.length ≤ st.capacity.toNat) :
    (st.run ops).table.length ≤ st.capacity.toNat := by
  induction ops generalizing st with
  | nil => exact hlen
  | cons op ops ih =>
    have hcap := capacity_step st op
    have hstep := (step_table st op hlen).length_le hlen
    rw [← hcap] at hstep ⊢
    exact ih _ hstep

theorem capacity_run_withCapacity (c : UInt32) (ops : List (StoreOp K)) :
    ((withCapacity c : SessionTemplateStore M).run ops).capacity = c := by
  rw [capacity_run, capacity_withCapacity]

theorem length_run_withCapacity (c : UInt32) (ops : List (StoreOp K)) :
    ((withCapacity c : SessionTemplateStore M).run ops).table.length ≤ c.toNat := by
  have h := length_run (withCapacity c : SessionTemplateStore M) ops (by simp)
  rwa [capacity_withCapacity] at h

theorem event_table (c : UInt32) (ops : List (StoreOp K)) (op : StoreOp K) :
    let st := (withCapacity c : SessionTemplateStore M).run ops
    TableStep c st.table op (st.step op).1 (st.step op).2.1 (st.step op).2.2.table := by
  have h := step_table ((withCapacity c : SessionTemplateStore M).run ops) op
    (by rw [capacity_run_withCapacity]; exact length_run_withCapacity c ops)
  rwa [capacity_run_withCapacity] at h

theorem events_table {c : UInt32} {ops : List (StoreOp K)} {e : Event M K}
    (he : e ∈ (withCapacity c : SessionTemplateStore M).events ops) :
    TableStep c e.before.table e.op e.response e.warnings e.after.table := by
  obtain ⟨pre, post, h⟩ := List.append_of_mem he
  obtain ⟨ops₁, ops₂, -, -, he, -⟩ := events_eq_append h
  rw [he]
  exact event_table c ops₁ e.op

end SessionTemplateStore

end IpfixParser

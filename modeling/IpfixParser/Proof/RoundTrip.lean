import IpfixParser.Proof.Records
import IpfixParser.Proof.StoreTable
import IpfixParser.Wire.Exporter
import Mathlib.Data.List.Dedup
import Mathlib.Data.List.Perm.Subperm

/-!
# What an exporter sends, a collector sees

Walking an exported message gives back its header, its templates and the values of its records. The
walk goes set by set: `Learned` is what the store knows after the template definitions so far, every
set keeps it, and with it the template of the next data set is the one its records were written with.
-/

namespace IpfixParser

open Lib

/-! ### The store along a message -/

section store

variable {M K : Type} [LruMap M (TemplateKey K) OwnedTemplate]

/-- The keys of a message's definitions. -/
def definedKeys (session : K) (odid : UInt32) (defs : List TemplateRecord) : List (TemplateKey K) :=
  defs.map fun r => (session, odid, r.id)

/-- A store that is ready for the definitions of a message: it has none that they disagree with, and
room for all of them. -/
structure SessionTemplateStore.ReadyFor [DecidableEq K] (st : SessionTemplateStore M) (session : K)
    (odid : UInt32) (defs : List TemplateRecord) : Prop where
  agree : ∀ r ∈ defs, ∀ t, (st.view session).get odid r.id = some t → t = .ofRecord r
  room : (st.table.map Prod.fst ++ definedKeys session odid defs).dedup.length ≤ st.capacity.toNat

/-- What a store knows after the definitions `defs`: these, and what it knew before. -/
structure SessionTemplateStore.Learned (st₀ : SessionTemplateStore M) (session : K) (odid : UInt32)
    (defs : List TemplateRecord) (st : SessionTemplateStore M) : Prop where
  defined : ∀ r ∈ defs, (st.view session).get odid r.id = some (.ofRecord r)
  kept : ∀ key, key ∉ definedKeys session odid defs → st.lookup key = st₀.lookup key
  capacity : st.capacity = st₀.capacity

namespace SessionTemplateStore

theorem Learned.refl (st : SessionTemplateStore M) (session : K) (odid : UInt32) :
    st.Learned session odid [] st where
  defined := by simp
  kept _ _ := rfl
  capacity := rfl

variable [DecidableEq K] {session : K} {odid : UInt32} {st₀ st : SessionTemplateStore M}
  {all defs : List TemplateRecord} {r : TemplateRecord}

theorem Learned.get (h : st₀.Learned session odid defs st)
    (hready : st₀.ReadyFor session odid all) (hdefs : defs ⊆ all) {t : TemplateRef}
    (ht : (st₀.view session).get odid t.id = some t ∨ ∃ r ∈ defs, .ofRecord r = t) :
    (st.view session).get odid t.id = some t := by
  rcases ht with hold | ⟨r, hr, rfl⟩
  · by_cases hdef : (session, odid, t.id) ∈ definedKeys session odid defs
    · obtain ⟨r, hr, hkey⟩ := List.mem_map.mp hdef
      have hid : r.id = t.id := by simpa using hkey
      rw [← hid] at hold ⊢
      rw [h.defined r hr, hready.agree r (hdefs hr) t hold]
    · exact (h.kept (session, odid, t.id) hdef).trans hold
  · exact h.defined r hr

variable [LawfulLruMap M]

theorem Learned.keys_subset (h : st₀.Learned session odid defs st) :
    st.table.map Prod.fst ⊆ st₀.table.map Prod.fst ++ definedKeys session odid defs := by
  intro key hkey
  by_cases hdef : key ∈ definedKeys session odid defs
  · exact List.mem_append_right _ hdef
  · apply List.mem_append_left
    rw [mem_keys_iff, h.kept key hdef] at hkey
    exact mem_keys_iff.mpr hkey

theorem Learned.length_lt (h : st₀.Learned session odid defs st)
    (hready : st₀.ReadyFor session odid all) (hdefs : defs ⊆ all) (hr : r ∈ all)
    (hnew : (st.view session).get odid r.id = none) : st.table.length < st.capacity.toNat := by
  have hnotMem : (session, odid, r.id) ∉ st.table.map Prod.fst := by
    rw [mem_keys_iff, lookup, hnew]
    simp
  have hkeys : definedKeys session odid defs ⊆ definedKeys session odid all :=
    List.map_subset _ hdefs
  have hsub : (session, odid, r.id) :: st.table.map Prod.fst ⊆
      (st₀.table.map Prod.fst ++ definedKeys session odid all).dedup := by
    intro key hkey
    rw [List.mem_dedup, List.mem_append]
    rcases List.mem_cons.mp hkey with rfl | hkey
    · exact .inr (List.mem_map_of_mem hr)
    · rcases List.mem_append.mp (h.keys_subset hkey) with hold | hdef
      · exact .inl hold
      · exact .inr (hkeys hdef)
  have hnodup : ((session, odid, r.id) :: st.table.map Prod.fst).Nodup :=
    List.nodup_cons.mpr ⟨hnotMem, st.nodup_table⟩
  have hle := (hnodup.subperm hsub).length_le
  rw [List.length_cons, List.length_map] at hle
  rw [h.capacity]
  exact Nat.lt_of_lt_of_le hle hready.room

theorem lookup_insert (hroom : (st.view session).get odid r.id = none →
      st.table.length < st.capacity.toNat)
    (hsame : ∀ t, (st.view session).get odid r.id = some t → t = .ofRecord r)
    (key : TemplateKey K) :
    (st.insert session odid r).2.2.lookup key =
      if key = (session, odid, r.id) then some (.ofRecord r) else st.lookup key := by
  rw [lookup_eq, lookup_eq]
  rw [get_view] at hroom hsame
  cases hfind : findKey (session, odid, r.id) st.table with
  | none =>
    have hpeek : LruMap.peek st.map (session, odid, r.id) = none := by
      rw [LawfulLruMap.peek_eq]
      exact hfind
    have hlen : LruMap.len st.map < (LruMap.maxLength st.map).toNat := by
      rw [LawfulLruMap.len_eq]
      exact hroom (by rw [hfind]; rfl)
    have horder := LawfulLruMap.order_insert_room st.map _ (.ofRecord r) hpeek hlen
    rw [insert_of_none hfind]
    simp only [table, horder, findKey_cons]
    split_ifs <;> rfl
  | some t =>
    have ht : t.toRef = .ofRecord r := hsame t.toRef (by rw [hfind]; rfl)
    have hagrees : t.Agrees r :=
      ⟨congrArg TemplateRef.scopeFieldCount ht, congrArg TemplateRef.fields ht⟩
    have hpeek : LruMap.peek st.map (session, odid, r.id) = some t := by
      rw [LawfulLruMap.peek_eq]
      exact hfind
    rw [insert_of_some hfind, if_pos hagrees]
    simp only [table, LawfulLruMap.order_get _ _ _ hpeek, findKey_cons, findKey_eraseKey]
    split_ifs
    · exact congrArg some ht
    · rfl

theorem Learned.insert (h : st₀.Learned session odid defs st)
    (hready : st₀.ReadyFor session odid all) (hagree : ∀ r ∈ all, ∀ r' ∈ all, r.id = r'.id → r = r')
    (hdefs : defs ⊆ all) (hr : r ∈ all) :
    st₀.Learned session odid (defs ++ [r]) (st.insert session odid r).2.2 := by
  have hsame : ∀ t, (st.view session).get odid r.id = some t → t = .ofRecord r := by
    intro t ht
    by_cases hdef : (session, odid, r.id) ∈ definedKeys session odid defs
    · obtain ⟨r', hr', hkey⟩ := List.mem_map.mp hdef
      obtain rfl : r' = r := hagree r' (hdefs hr') r hr (by simpa using hkey)
      rw [h.defined r' hr'] at ht
      exact (Option.some.inj ht).symm
    · have hkept : (st.view session).get odid r.id = (st₀.view session).get odid r.id :=
        h.kept _ hdef
      rw [hkept] at ht
      exact hready.agree r hr t ht
  have hget := lookup_insert (h.length_lt hready hdefs hr) hsame
  constructor
  case defined =>
    intro r' hr'
    show (st.insert session odid r).2.2.lookup (session, odid, r'.id) = _
    rw [hget]
    rcases List.mem_append.mp hr' with hr' | hr'
    · split_ifs with hkey
      · obtain rfl : r' = r := hagree r' (hdefs hr') r hr (by simpa using hkey)
        rfl
      · exact h.defined r' hr'
    · rw [List.mem_singleton.mp hr', if_pos rfl]
  case kept =>
    intro key hkey
    unfold definedKeys at hkey
    rw [List.map_append, List.mem_append, not_or, List.map_singleton, List.mem_singleton] at hkey
    rw [hget, if_neg hkey.2, h.kept key hkey.1]
  case capacity => exact (capacity_step st (.insert session odid r)).trans h.capacity

end SessionTemplateStore

end store

/-! ### Walking records -/

theorem walkFields_eq {tg : Target} {t : TemplateRef} {es : List Encoded} (hes : t.Encodes es)
    (hfields : t.fields.length ≤ 65535) {fuel : Nat} (hfuel : 65535 < fuel) :
    walkFields tg fuel ⟨TemplateRef.rawRecord es, t⟩ =
      .ok (List.zipWith Encoded.value t.fields es) := by
  have hmax := tg.usizeMax_ge
  have hfields' : t.fields.length ≤ tg.usizeMax := by omega
  have hyields : Yields (FieldIter.next tg) (DataRecord.fields ⟨TemplateRef.rawRecord es, t⟩)
      ((List.zipWith Encoded.value t.fields es).map .ok) := FieldIter.yields hfields' hes rfl
  have hlen : (List.zipWith Encoded.value t.fields es).length < fuel := by
    rw [List.length_zipWith]
    omega
  refine (whileLet_push hyields hlen (g := id) ?_).trans ?_
  · intro _ _ _
    rfl
  · rw [List.map_id]

theorem walkRecords_eq {tg : Target} {t : TemplateRef} {records : List (List Encoded)} {pad : Bytes}
    (hrecords : ∀ es ∈ records, t.Encodes es) (hfields : t.fields.length ≤ 65535)
    (hsome : ∃ f ∈ t.fields, f.fieldLength ≠ 0) (hpad : pad.length < t.minSize)
    (hbuf : (records.flatMap TemplateRef.rawRecord ++ pad).length ≤ 65531) {fuel : Nat}
    (hfuel : 65535 < fuel) :
    walkRecords tg fuel (records.flatMap TemplateRef.rawRecord ++ pad) t =
      .ok (records.map (List.zipWith Encoded.value t.fields)) := by
  have hpos := TemplateRef.minSize_pos_iff.mpr hsome
  have hframing := t.framing hpos
  obtain ⟨it, hnew, hitbuf, hinv⟩ := DataRecordIter.new_inv tg
    (TemplateRef.minSize_le_usizeMax hfields tg) (records.flatMap TemplateRef.rawRecord ++ pad)
  have hraw : records.flatMap TemplateRef.rawRecord =
      (records.map fun es => (⟨TemplateRef.rawRecord es, t⟩ : DataRecord)).flatMap DataRecord.raw := by
    rw [List.flatMap_map]
  have hvalid : ∀ r ∈ records.map fun es => (⟨TemplateRef.rawRecord es, t⟩ : DataRecord),
      t.IsRecord r := by
    simpa using fun es hes => TemplateRef.isRecord (hrecords es hes)
  have hyields := (DataRecordIter.readsFrames tg t hpos).yields ⟨hitbuf, hinv, hbuf⟩
    (hframing.frames_ok_iff.mpr ⟨pad, by rw [hraw], hpad, hvalid⟩)
  rw [List.map_map] at hyields
  have hlen := hframing.length_le hvalid
  rw [← hraw, List.length_map] at hlen
  rw [List.length_append] at hbuf
  unfold walkRecords
  rw [hnew, Outcome.ok_bind]
  refine whileLet_push hyields (by omega) ?_
  intro es hes acc
  show (do
    let fields ← walkFields tg fuel ⟨TemplateRef.rawRecord es, t⟩
    return acc ++ [fields]) = _
  rw [walkFields_eq (hrecords es hes) hfields hfuel]
  rfl

/-! ### Walking sets -/

section store

variable {M K : Type} [LruMap M (TemplateKey K) OwnedTemplate] {session : K} {odid : UInt32}

/-- The store after inserting records in order. -/
def SessionTemplateStore.insertAll (st : SessionTemplateStore M) (session : K) (odid : UInt32)
    (records : List TemplateRecord) : SessionTemplateStore M :=
  records.foldl (fun st r => (st.insert session odid r).2.2) st

theorem walkTemplates_eq {kind : TemplateSetKind} {records : List TemplateRecord}
    {fbuf : List FieldSpecifier} (hrecords : ∀ r ∈ records, kind.Valid fbuf.length r) {pad : Bytes}
    (hpad : pad.length < kind.minHeader)
    (hbuf : (records.flatMap kind.encode ++ pad).length ≤ 65531) {fuel : Nat} (hfuel : 65535 < fuel)
    (st : SessionTemplateStore M) :
    walkTemplates fuel session odid fbuf kind (records.flatMap kind.encode ++ pad) st =
      .ok (records, st.insertAll session odid records) := by
  have hframing := kind.framing fbuf.length
  have hyields := (TemplateSetIter.readsFrames kind fbuf.length).yields
    (s := .new (records.flatMap kind.encode ++ pad) fbuf kind) ⟨rfl, rfl, rfl, rfl⟩
    (hframing.frames_ok_iff.mpr ⟨pad, rfl, hpad, hrecords⟩)
  have hlen := hframing.length_le hrecords
  rw [List.length_append] at hbuf
  have hrun : ∀ (seen : List TemplateRecord) (st : SessionTemplateStore M),
      records.foldlM (fun (acc : List TemplateRecord × SessionTemplateStore M) record =>
        (Outcome.ok (acc.1 ++ [record], (acc.2.insert session odid record).2.2) : Outcome Empty _))
        (seen, st) = .ok (seen ++ records, st.insertAll session odid records) := by
    clear hyields hlen hbuf hrecords
    induction records with
    | nil => simp [SessionTemplateStore.insertAll]
    | cons r records ih =>
      intro seen st
      rw [List.foldlM_cons, Outcome.ok_bind, ih]
      simp [SessionTemplateStore.insertAll]
  unfold walkTemplates
  rw [whileLet_eq hyields (by rw [List.length_map]; omega), List.foldlM_map]
  exact hrun [] st

/-- What the store must know for a set to be read. -/
def ExportedSet.Known (st : SessionTemplateStore M) (session : K) (odid : UInt32) :
    ExportedSet → Prop
  | templates _ _ _ => True
  | data t _ _ => (st.view session).get odid t.id = some t

theorem walkSet_eq {tg : Target} {fbuf : List FieldSpecifier} {s : ExportedSet}
    (hs : s.Valid fbuf.length) (hlen : s.toSet.records.length ≤ 65531)
    {st : SessionTemplateStore M} (hknown : s.Known st session odid) {fuel : Nat} (hfuel : 65535 < fuel) :
    walkSet tg fuel session odid fbuf s.toSet st =
      .ok (s.walked, st.insertAll session odid s.definitions) := by
  cases s with
  | templates kind records pad =>
    obtain ⟨hrecords, hpad⟩ := hs
    rw [ExportedSet.toSet, TemplateSetKind.records_toSet] at hlen
    have hwalk : walkTemplates fuel session odid fbuf kind (records.flatMap kind.encode ++ pad) st =
        .ok (records, st.insertAll session odid records) :=
      walkTemplates_eq hrecords hpad hlen hfuel st
    cases kind with
    | template =>
      simp only [walkSet, ExportedSet.toSet, TemplateSetKind.toSet, hwalk]
      rfl
    | optionsTemplate =>
      simp only [walkSet, ExportedSet.toSet, TemplateSetKind.toSet, hwalk]
      rfl
  | data t records pad =>
    obtain ⟨-, hfields, hsome, hrecords, hpad⟩ := hs
    have hget : (st.view session).get odid t.id = some t := hknown
    have hwalk : walkRecords tg fuel (records.flatMap TemplateRef.rawRecord ++ pad) t =
        .ok (records.map (List.zipWith Encoded.value t.fields)) :=
      walkRecords_eq hrecords hfields hsome hpad hlen hfuel
    simp only [walkSet, ExportedSet.toSet, hget, hwalk]
    rfl

theorem SessionTemplateStore.insertAll_append (st : SessionTemplateStore M)
    (defs records : List TemplateRecord) : st.insertAll session odid (defs ++ records) =
      (st.insertAll session odid defs).insertAll session odid records := List.foldl_append

/-- Sets are walked as they were put together, when each finds its template in the store. -/
theorem walkSets_eq {tg : Target} {fbuf : List FieldSpecifier} {sets : List ExportedSet}
    (hsets : ∀ s ∈ sets, s.Valid fbuf.length ∧ s.toSet.records.length ≤ 65531)
    {st : SessionTemplateStore M} (hknown : ∀ pre s post, sets = pre ++ s :: post →
      s.Known (st.insertAll session odid (pre.flatMap ExportedSet.definitions)) session odid)
    {fuel : Nat} (hfuel : 65535 < fuel) (seen : List WalkedSet) :
    sets.foldlM (fun acc s => walkNext tg fuel session odid fbuf acc s.toSet) (seen, st) =
      .ok (seen ++ sets.map ExportedSet.walked,
        st.insertAll session odid (sets.flatMap ExportedSet.definitions)) := by
  induction sets generalizing st seen with
  | nil => simp [SessionTemplateStore.insertAll]
  | cons s sets ih =>
    obtain ⟨hvalid, hlen⟩ := hsets s (by simp)
    have hrest : ∀ pre s' post, sets = pre ++ s' :: post →
        s'.Known ((st.insertAll session odid s.definitions).insertAll session odid
          (pre.flatMap ExportedSet.definitions)) session odid := by
      intro pre s' post heq
      have hs' := hknown (s :: pre) s' post (by rw [heq, List.cons_append])
      rwa [List.flatMap_cons, SessionTemplateStore.insertAll_append] at hs'
    have hfirst : s.Known st session odid := hknown [] s sets rfl
    have hstep : walkNext tg fuel session odid fbuf (seen, st) s.toSet =
        .ok (seen ++ [s.walked], st.insertAll session odid s.definitions) := by
      unfold walkNext
      rw [walkSet_eq hvalid hlen hfirst hfuel]
      rfl
    rw [List.foldlM_cons, hstep, Outcome.ok_bind, ih (fun s' hs' => hsets s' (by simp [hs'])) hrest,
      List.flatMap_cons, SessionTemplateStore.insertAll_append, List.map_cons, List.append_assoc]
    rfl

variable [DecidableEq K] [LawfulLruMap M] {st₀ st : SessionTemplateStore M}
  {all defs : List TemplateRecord}

theorem SessionTemplateStore.Learned.insertAll (h : st₀.Learned session odid defs st)
    (hready : st₀.ReadyFor session odid all) (hagree : ∀ r ∈ all, ∀ r' ∈ all, r.id = r'.id → r = r')
    {records : List TemplateRecord} (hall : defs ++ records ⊆ all) :
    st₀.Learned session odid (defs ++ records) (st.insertAll session odid records) := by
  induction records generalizing defs st with
  | nil => rwa [List.append_nil]
  | cons r records ih =>
    have hr : r ∈ all := hall (by simp)
    have hdefs : defs ⊆ all := fun r' hr' => hall (by simp [hr'])
    have hrest : defs ++ [r] ++ records ⊆ all := by
      rw [List.append_assoc]
      exact hall
    have hlearned := ih (h.insert hready hagree hdefs hr) hrest
    rwa [List.append_assoc] at hlearned

/-- Walking an exported message gives its header, its templates and the values of its records, and
leaves its templates in the store. -/
theorem walkMessage_encode (tg : Target) (session : K) {fbuf : List FieldSpecifier}
    {msg : ExportedMessage} (hvalid : msg.Valid fbuf.length) {st : SessionTemplateStore M}
    (hready : st.ReadyFor session msg.observationDomainId msg.definitions)
    (hknown : ∀ pre t records pad post, msg.sets = pre ++ .data t records pad :: post →
      (st.view session).get msg.observationDomainId t.id = some t ∨
        ∃ r ∈ pre.flatMap ExportedSet.definitions, .ofRecord r = t)
    {fuel : Nat} (hfuel : 65535 < fuel) :
    ∃ st', walkMessage tg fuel session fbuf msg.encode st =
        .ok (msg.header, msg.sets.map ExportedSet.walked, st') ∧
      st.Learned session msg.observationDomainId msg.definitions st' := by
  have hlearned : ∀ defs ⊆ msg.definitions, st.Learned session msg.observationDomainId defs
      (st.insertAll session msg.observationDomainId defs) := fun defs hdefs =>
    (SessionTemplateStore.Learned.refl st session _).insertAll hready hvalid.agree hdefs
  refine ⟨_, ?_, hlearned msg.definitions fun _ h => h⟩
  have hsets : ∀ pre s post, msg.sets = pre ++ s :: post →
      s.Known (st.insertAll session msg.observationDomainId (pre.flatMap ExportedSet.definitions))
        session msg.observationDomainId := by
    intro pre s post heq
    have hdefs : pre.flatMap ExportedSet.definitions ⊆ msg.definitions := by
      unfold ExportedMessage.definitions
      rw [heq, List.flatMap_append]
      exact List.subset_append_left _ _
    cases s with
    | templates kind records pad => trivial
    | data t records pad =>
      exact (hlearned _ hdefs).get hready hdefs (hknown pre t records pad post heq)
  have hsizes : ∀ s ∈ msg.sets, s.Valid fbuf.length ∧ s.toSet.records.length ≤ 65531 :=
    fun s hs => ⟨hvalid.sets s hs, (hvalid.wellFormed s hs).fits⟩
  have hcount : ((msg.sets.map ExportedSet.toSet).map
      (Except.ok : Set → Result Set)).length < fuel := by
    rw [List.length_map, List.length_map]
    exact Nat.lt_of_le_of_lt hvalid.length_sets hfuel
  have hloop : whileLet SetIter.next (fun acc item => do
      let set ← .expect item
      walkNext tg fuel session msg.observationDomainId fbuf acc set) fuel (.new msg.payload) ([], st) =
      .ok (msg.sets.map ExportedSet.walked,
        st.insertAll session msg.observationDomainId msg.definitions) := by
    rw [whileLet_eq hvalid.yields hcount, List.map_map, List.foldlM_map]
    exact walkSets_eq hsizes hsets hfuel []
  have hodid : msg.header.observationDomainId = msg.observationDomainId := rfl
  unfold walkMessage
  simp only [hvalid.decode, Outcome.attempt_ok, Outcome.ok_bind, Outcome.expect_ok, hodid]
  rw [hloop]
  rfl

end store

theorem walkMessage_encode_name :
    let t : TemplateRecord := ⟨256, 0, [⟨8, none, 4⟩, ⟨82, none, 65535⟩]⟩
    let msg : ExportedMessage := ⟨1700000000, 0, 42, [.templates .template [t] [0],
      .data (.ofRecord t) [[.fixed [10, 0, 0, 1], .long [65, 66]]] [0]]⟩
    let st : SessionTemplateStore (RecencyList (TemplateKey Unit) OwnedTemplate) := .new
    ∃ st', walkMessage .le64 65536 () (List.replicate 16 .empty) msg.encode st =
        .ok (msg.header, [.templates .template [t],
          .data 256 [[⟨8, none, [10, 0, 0, 1]⟩, ⟨82, none, [65, 66]⟩]]], st') ∧
      st.Learned () 42 [t] st' := by
  intro t msg st
  have hvalid : msg.Valid (List.replicate 16 FieldSpecifier.empty).length := by
    constructor
    · intro s hs
      simp only [msg, List.mem_cons, List.not_mem_nil, or_false] at hs
      rcases hs with rfl | rfl
      · refine ⟨?_, by decide⟩
        simp only [List.mem_singleton, forall_eq]
        refine ⟨⟨by decide, by decide, by decide, rfl⟩, ?_⟩
        simp [t, FieldSpecifier.WellFormed]
      · refine ⟨by decide, by decide, ⟨⟨8, none, 4⟩, ?_, by decide⟩, ?_, by decide⟩
        · simp [t, TemplateRef.ofRecord]
        simp only [List.mem_singleton, forall_eq]
        exact .cons ⟨by decide, rfl⟩ (.cons ⟨rfl, by decide⟩ .nil)
    · decide
    · intro r hr r' hr' _
      have hone : msg.definitions = [t] := rfl
      rw [hone, List.mem_singleton] at hr hr'
      rw [hr, hr']
  have hready : st.ReadyFor () msg.observationDomainId msg.definitions := by
    constructor
    · intro r _ t' ht'
      cases ht'
    · decide
  refine walkMessage_encode .le64 () hvalid hready ?_ (by decide)
  intro pre t' records pad post heq
  rcases pre with _ | ⟨a, _ | ⟨b, pre⟩⟩
  · simp [msg] at heq
  · simp only [msg, List.cons_append, List.nil_append, List.cons.injEq, ExportedSet.data.injEq]
      at heq
    obtain ⟨rfl, ⟨rfl, -, -⟩, -⟩ := heq
    exact .inr ⟨t, by simp [ExportedSet.definitions], rfl⟩
  · simp [msg] at heq

end IpfixParser

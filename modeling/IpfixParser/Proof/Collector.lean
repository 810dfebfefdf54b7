import IpfixParser.Proof.Journal
import IpfixParser.Proof.Records
import IpfixParser.Proof.StoreHistory

/-!
# The loops of a collector amount to the journal of the message

`collectSets_follows`: on a message that has a journal, the loops do what the collector does with the
items of the journal one after another, and leave the store that the journal leaves; on a message that
has none they never return. How the loops came by the items does not show in the result: not in what
the scratch buffer held, not in the bound on their turns, not in the layout of the records.
-/

namespace IpfixParser

open Lib

variable {M K β : Type} [DecidableEq K] [LruMap M (TemplateKey K) OwnedTemplate]

/-- A store that operations have led to: within its capacity, and with templates that were decoded. -/
structure SessionTemplateStore.Sound (st : SessionTemplateStore M) : Prop where
  bounded : st.table.length ≤ st.capacity.toNat
  fields : ∀ key t, st.lookup key = some t → t.fields.length ≤ 65535

theorem SessionTemplateStore.Sound.insert [LawfulLruMap M] {st : SessionTemplateStore M}
    (h : st.Sound) (session : K) (odid : UInt32) {r : TemplateRecord} (hr : r.fields.length ≤ 65535) :
    (st.insert session odid r).2.2.Sound := by
  have hstep := step_table st (.insert session odid r) h.bounded
  have hcap := capacity_step st (.insert session odid r)
  constructor
  · show _ ≤ (st.step (.insert session odid r)).2.2.capacity.toNat
    rw [hcap]
    exact hstep.length_le h.bounded
  · intro key t ht
    rw [lookup_eq_some_iff] at ht
    rcases hstep.origin ht with ⟨hold, -⟩ | ⟨r', hop, -, -, hof⟩
    · exact h.fields key t (lookup_eq_some_iff.mpr hold)
    · obtain rfl : r = r' := (StoreOp.insert.inj hop).2.2
      obtain ⟨-, -, hfields⟩ := OwnedTemplate.mk.inj hof
      rw [hfields]
      exact hr

theorem SessionTemplateStore.Sound.read [LawfulLruMap M] {st st' : SessionTemplateStore M}
    (h : st.Sound) {session : K} {n : Nat} {odid : UInt32} {set : Set} {seen : List Seen}
    (hread : (dictionary session).read n odid set st = some (seen, st')) : st'.Sound := by
  refine Dictionary.read_keeps (fun _ ht r hr => ht.insert session odid ?_) h hread
  have hmem : r ∈ definitionsIn n [.ok set] := List.mem_flatMap.mpr ⟨set, List.mem_singleton_self _, hr⟩
  exact length_fields_of_mem_definitionsIn hmem

/-! ### Template sets -/

theorem TemplateSetIter.length_fieldsBuf {it it' : TemplateSetIter} {x : Option (Result TemplateRecord)}
    (h : next it = .ok (x, it')) : it'.fieldsBuf.length = it.fieldsBuf.length := by
  unfold next at h
  split_ifs at h
  · cases h
    rfl
  · cases h
    rfl
  · obtain ⟨⟨result, fieldsBuf⟩, hinto, h⟩ := Outcome.bind_eq_ok.mp h
    have hlen : fieldsBuf.length = it.fieldsBuf.length := by
      cases hdec : it.kind.decode it.fieldsBuf.length it.buf with
      | ok x =>
        obtain ⟨fieldsBuf', hinto', hlen⟩ := TemplateSetKind.decodeInto_of_ok hdec
        rw [hinto] at hinto'
        cases hinto'
        exact hlen
      | err e =>
        obtain ⟨fieldsBuf', hinto', hlen⟩ := TemplateSetKind.decodeInto_of_err hdec
        rw [hinto] at hinto'
        cases hinto'
        exact hlen
      | panic => exact absurd hdec ((it.kind.framing _).ne_panic _)
    cases result <;> cases h <;> exact hlen

omit [DecidableEq K] in
theorem forIn_collectTemplate (on : β → Seen → Outcome Unfinished β) (session : K) (odid : UInt32)
    (kind : TemplateSetKind) (items : List (Result TemplateRecord)) (acc : β)
    (st : SessionTemplateStore M) :
    forIn items (acc, st) (collectTemplate on session odid kind) = (do
      let (seen, st') := (SessionTemplateStore.dictionary session).tell odid kind items st
      let acc' ← seen.foldlM on acc
      return (acc', st')) := by
  induction items generalizing acc st with
  | nil => rfl
  | cons item items ih =>
    rw [List.forIn_cons]
    cases item with
    | ok record =>
      simp only [collectTemplate, Dictionary.tell, SessionTemplateStore.dictionary, List.foldlM_cons]
      cases on acc (.template kind record (st.insert session odid record).1) with
      | ok acc' => exact ih acc' _
      | err e => rfl
      | panic => rfl
    | error e =>
      simp only [collectTemplate, Dictionary.tell, List.foldlM_cons]
      cases on acc (.templateError kind e) with
      | ok acc' => exact ih acc' _
      | err e => rfl
      | panic => rfl

omit [DecidableEq K] in
theorem collectTemplates_eq (on : β → Seen → Outcome Unfinished β) {fuel : Nat} (session : K)
    (odid : UInt32) (kind : TemplateSetKind) {records : Bytes} (hfuel : records.length < fuel) (acc : β)
    (st : CollectorState M) :
    ∃ fbuf, fbuf.length = st.fbuf.length ∧
      collectTemplates on fuel session odid kind records acc st = (do
        let (seen, store) := (SessionTemplateStore.dictionary session).tell odid kind
          (templatesIn st.fbuf.length kind records) st.store
        let acc' ← seen.foldlM on acc
        return (acc', ⟨store, fbuf⟩)) := by
  have hyields : Yields TemplateSetIter.next (.new records st.fbuf kind)
      (templatesIn st.fbuf.length kind records) :=
    (TemplateSetIter.readsFrames kind st.fbuf.length).yields ⟨rfl, rfl, rfl, rfl⟩
      (frames_templatesIn _ _ _)
  have hlen : (templatesIn st.fbuf.length kind records).length < fuel :=
    Nat.lt_of_le_of_lt (length_templatesIn_le ..) hfuel
  obtain ⟨it, hreach, hloop⟩ := breakLoop_eq (collectTemplate on session odid kind) hyields hlen
    (acc, st.store)
  refine ⟨it.fieldsBuf, ?_, ?_⟩
  · exact hreach.inv (fun it => it.fieldsBuf.length = st.fbuf.length)
      (fun hit hnext => (TemplateSetIter.length_fieldsBuf hnext).trans hit) rfl
  · unfold collectTemplates
    rw [hloop, forIn_collectTemplate]
    generalize (SessionTemplateStore.dictionary session).tell odid kind
      (templatesIn st.fbuf.length kind records) st.store = told
    obtain ⟨seen, store⟩ := told
    simp only
    cases seen.foldlM on acc <;> rfl

/-! ### Data sets -/

theorem collectRecords_eq (on : β → Seen → Outcome Unfinished β) (tg : Target) {fuel : Nat}
    {t : TemplateRef} (hpos : 0 < t.minSize) (hfields : t.fields.length ≤ 65535) {records : Bytes}
    (hbuf : records.length ≤ 65531) (hfuel : records.length < fuel) (acc : β) :
    collectRecords on tg fuel records t acc = ((recordsIn t records).map Seen.ofRecord).foldlM on acc := by
  obtain ⟨it, hnew, hitbuf, hinv⟩ := DataRecordIter.new_inv tg
    (TemplateRef.minSize_le_usizeMax hfields tg) records
  have hframes := frames_recordsIn hpos records
  have hyields := (DataRecordIter.readsFrames tg t hpos).yields ⟨hitbuf, hinv, hbuf⟩ hframes
  have hlen : (recordsIn t records).length < fuel := Nat.lt_of_le_of_lt (length_recordsIn_le hpos _) hfuel
  obtain ⟨it', -, hloop⟩ := breakLoop_eq (collectRecord on) hyields hlen acc
  have hforIn : forIn (recordsIn t records) acc (collectRecord on) =
      (recordsIn t records).foldlM (fun acc item => on acc (Seen.ofRecord item)) acc :=
    hframes.forIn_eq (fun _ _ => rfl) (fun _ _ => .inr rfl) acc
  unfold collectRecords
  rw [hnew, Outcome.lift_ok, Outcome.ok_bind, hloop, hforIn, List.foldlM_map]
  cases (recordsIn t records).foldlM (fun acc item => on acc (Seen.ofRecord item)) acc <;> rfl

theorem collectRecords_ne_ok (on : β → Seen → Outcome Unfinished β) (tg : Target) (fuel : Nat)
    {t : TemplateRef} (hzero : t.minSize = 0) (records : Bytes) (acc acc' : β) :
    collectRecords on tg fuel records t acc ≠ .ok acc' := by
  obtain ⟨it, hnew, -, hinv⟩ := DataRecordIter.new_inv tg (t := t) (by omega) records
  have hcall := DataRecordIter.call_of_minSize_eq_zero tg hzero hinv
  have hbody : ∀ acc acc' : β, collectRecord on (.ok ⟨[], t⟩) acc ≠ .ok (.done acc') := by
    intro acc acc' h
    obtain ⟨x, -, hx⟩ := Outcome.bind_eq_ok.mp h
    cases hx
  unfold collectRecords
  rw [hnew, Outcome.lift_ok, Outcome.ok_bind, ne_eq, Outcome.bind_eq_ok]
  rintro ⟨x, hx, -⟩
  exact breakLoop_ne_ok hcall hbody fuel acc x hx

/-! ### Sets -/

/-- What a loop gives, by what the journal says: it does `on` at each item and leaves the store, if `on`
does not fail, or it does not return. -/
inductive Follows (on : β → Seen → Outcome Unfinished β) (n : Nat) (acc : β) :
    Option (List Seen × SessionTemplateStore M) → Outcome Unfinished (β × CollectorState M) → Prop
  | done {seen store acc' fbuf} : seen.foldlM on acc = .ok acc' → fbuf.length = n →
      Follows on n acc (some (seen, store)) (.ok (acc', ⟨store, fbuf⟩))
  | failed {seen store e} : seen.foldlM on acc = .err e → Follows on n acc (some (seen, store)) (.err e)
  | panicked {seen store} : seen.foldlM on acc = .panic → Follows on n acc (some (seen, store)) .panic
  | endless {x} : (∀ y, x ≠ .ok y) → Follows on n acc none x

theorem Follows.of_eq {on : β → Seen → Outcome Unfinished β} {n : Nat} {acc : β} {seen : List Seen}
    {store : SessionTemplateStore M} {fbuf : List FieldSpecifier} (hlen : fbuf.length = n) :
    Follows on n acc (some (seen, store)) (do
      let acc' ← seen.foldlM on acc
      return (acc', ⟨store, fbuf⟩)) := by
  cases h : seen.foldlM on acc with
  | ok acc' => exact .done h hlen
  | err e => exact .failed h
  | panic => exact .panicked h

theorem Follows.bind {on : β → Seen → Outcome Unfinished β} {n : Nat} {acc : β} {seen : List Seen}
    {store : SessionTemplateStore M} {x : Outcome Unfinished (β × CollectorState M)}
    {f : β × CollectorState M → Outcome Unfinished (β × CollectorState M)}
    {rest : Option (List Seen × SessionTemplateStore M)} (hx : Follows on n acc (some (seen, store)) x)
    (hf : ∀ acc' fbuf, fbuf.length = n → Follows on n acc' rest (f (acc', ⟨store, fbuf⟩))) :
    Follows on n acc (rest.map fun told => (seen ++ told.1, told.2)) (x >>= f) := by
  cases hx with
  | @done _ _ acc' fbuf hfold hlen =>
    have hstep := hf acc' fbuf hlen
    rw [Outcome.ok_bind]
    generalize f (acc', ⟨store, fbuf⟩) = y at hstep
    cases hstep with
    | done hfold' hlen' => exact .done (by rw [List.foldlM_append, hfold]; exact hfold') hlen'
    | failed hfold' => exact .failed (by rw [List.foldlM_append, hfold]; exact hfold')
    | panicked hfold' => exact .panicked (by rw [List.foldlM_append, hfold]; exact hfold')
    | endless hne => exact .endless hne
  | failed hfold =>
    cases rest with
    | none => exact .endless (by simp)
    | some told => exact .failed (by rw [List.foldlM_append, hfold]; rfl)
  | panicked hfold =>
    cases rest with
    | none => exact .endless (by simp)
    | some told => exact .panicked (by rw [List.foldlM_append, hfold]; rfl)

omit [DecidableEq K] in
theorem collectSet_follows (on : β → Seen → Outcome Unfinished β) (tg : Target) {fuel : Nat}
    (hfuel : 65535 < fuel) (session : K) (odid : UInt32) {set : Set} (hset : set.records.length ≤ 65531)
    (acc : β) {st : CollectorState M} (hst : st.store.Sound (K := K)) :
    Follows on st.fbuf.length acc
      ((SessionTemplateStore.dictionary session).read st.fbuf.length odid set st.store)
      (collectSet on tg fuel session odid set acc st) := by
  have htemplates : ∀ kind, Follows on st.fbuf.length acc
      (some ((SessionTemplateStore.dictionary session).tell odid kind
        (templatesIn st.fbuf.length kind set.records) st.store))
      (collectTemplates on fuel session odid kind set.records acc st) := by
    intro kind
    have hlt : set.records.length < fuel := by omega
    obtain ⟨fbuf, hlen, heq⟩ := collectTemplates_eq on session odid kind hlt acc st
    rw [heq]
    exact .of_eq hlen
  unfold Dictionary.read collectSet
  cases set.kind with
  | template => exact htemplates .template
  | optionsTemplate => exact htemplates .optionsTemplate
  | data tid =>
    have hdict : (SessionTemplateStore.dictionary session).get st.store odid tid =
      (st.store.view session).get odid tid := rfl
    simp only [hdict]
    cases hget : (st.store.view session).get odid tid with
    | none =>
      have hone : on acc (.unknownTemplate tid) = [Seen.unknownTemplate tid].foldlM on acc :=
        (bind_pure _).symm
      simp only [hone]
      exact .of_eq rfl
    | some t =>
      have hfields := hst.fields (session, odid, tid) t hget
      simp only
      split_ifs with hzero
      · refine .endless fun y hy => ?_
        obtain ⟨acc', hacc, -⟩ := Outcome.bind_eq_ok.mp hy
        exact collectRecords_ne_ok on tg fuel hzero set.records acc acc' hacc
      · rw [collectRecords_eq on tg (Nat.pos_of_ne_zero hzero) hfields hset (by omega)]
        exact .of_eq rfl

variable [LawfulLruMap M]

theorem forIn_collectItem (on : β → Seen → Outcome Unfinished β) (tg : Target) {fuel : Nat}
    (hfuel : 65535 < fuel) (session : K) (odid : UInt32) {items : List (Result Set)}
    (hitems : ∀ s, .ok s ∈ items → s.records.length ≤ 65531) (acc : β) {st : CollectorState M}
    (hst : st.store.Sound (K := K)) :
    Follows on st.fbuf.length acc
      ((SessionTemplateStore.dictionary session).journal st.fbuf.length odid items st.store)
      (forIn items (acc, st) (collectItem on tg fuel session odid)) := by
  induction items generalizing acc st with
  | nil => exact .done rfl rfl
  | cons item items ih =>
    rw [List.forIn_cons]
    cases item with
    | error e =>
      have hone : on acc (.setError e) = [Seen.setError e].foldlM on acc := (bind_pure _).symm
      simp only [collectItem, hone, bind_assoc, pure_bind]
      exact .of_eq rfl
    | ok set =>
      have hset := collectSet_follows on tg hfuel session odid (hitems set (List.mem_cons_self ..)) acc hst
      have hrest : ∀ s, .ok s ∈ items → s.records.length ≤ 65531 :=
        fun s hs => hitems s (List.mem_cons_of_mem _ hs)
      simp only [Dictionary.journal, collectItem, bind_assoc, pure_bind]
      cases hread : (SessionTemplateStore.dictionary session).read st.fbuf.length odid set st.store with
      | none =>
        rw [hread] at hset
        cases hset with
        | endless hne =>
          refine .endless fun y hy => ?_
          obtain ⟨x, hx, -⟩ := Outcome.bind_eq_ok.mp hy
          exact hne x hx
      | some told =>
        obtain ⟨seen, store⟩ := told
        rw [hread] at hset
        have hrun : ∀ acc' fbuf, fbuf.length = st.fbuf.length → Follows on st.fbuf.length acc'
            ((SessionTemplateStore.dictionary session).journal st.fbuf.length odid items store)
            (forIn items (acc', ⟨store, fbuf⟩) (collectItem on tg fuel session odid)) := by
          intro acc' fbuf hlen
          have hrun := @ih hrest acc' ⟨store, fbuf⟩ (hst.read hread)
          rwa [hlen] at hrun
        have hboth := hset.bind (f := fun x => forIn items x (collectItem on tg fuel session odid)) hrun
        rw [Option.map_eq_bind] at hboth
        exact hboth

/-- The loops over a message follow its journal. -/
theorem collectSets_follows (on : β → Seen → Outcome Unfinished β) (tg : Target) {fuel : Nat}
    (hfuel : 65535 < fuel) (session : K) (odid : UInt32) {payload : Bytes}
    (hpayload : payload.length ≤ 65535) (acc : β) {st : CollectorState M}
    (hst : st.store.Sound (K := K)) :
    Follows on st.fbuf.length acc
      ((SessionTemplateStore.dictionary session).journal st.fbuf.length odid (setsIn payload) st.store)
      (collectSets on tg fuel session odid payload acc st) := by
  have hyields : Yields SetIter.next (.new payload) (setsIn payload) :=
    SetIter.readsFrames.yields rfl (frames_setsIn payload)
  have hlen : (setsIn payload).length < fuel :=
    Nat.lt_of_le_of_lt (Nat.le_trans (length_setsIn_le payload) hpayload) hfuel
  obtain ⟨it, -, hloop⟩ := breakLoop_eq (collectItem on tg fuel session odid) hyields hlen (acc, st)
  have hitems : ∀ s, .ok s ∈ setsIn payload → s.records.length ≤ 65531 :=
    fun s hs => (wellFormed_of_mem_setsIn hs).fits
  unfold collectSets
  rw [hloop]
  simp only [bind_assoc, pure_bind, bind_pure]
  exact forIn_collectItem on tg hfuel session odid hitems acc hst

/-! ### The bound on the turns -/

section mono

variable (on : β → Seen → Outcome Unfinished β) (tg : Target) {fuel fuel' : Nat} (hle : fuel ≤ fuel')
  {session : K} {odid : UInt32} {acc : β} {st : CollectorState M} {x : β × CollectorState M}

include hle

omit [DecidableEq K] [LawfulLruMap M] in
theorem collectTemplates_mono {kind : TemplateSetKind} {records : Bytes}
    (h : collectTemplates on fuel session odid kind records acc st = .ok x) :
    collectTemplates on fuel' session odid kind records acc st = .ok x := by
  unfold collectTemplates at h ⊢
  obtain ⟨y, hy, h⟩ := Outcome.bind_eq_ok.mp h
  rw [breakLoop_mono (fun _ _ _ hturn => hturn) hle hy, Outcome.ok_bind]
  exact h

theorem collectRecords_mono {records : Bytes} {t : TemplateRef} {acc' : β}
    (h : collectRecords on tg fuel records t acc = .ok acc') :
    collectRecords on tg fuel' records t acc = .ok acc' := by
  unfold collectRecords at h ⊢
  obtain ⟨it, hit, h⟩ := Outcome.bind_eq_ok.mp h
  obtain ⟨y, hy, h⟩ := Outcome.bind_eq_ok.mp h
  rw [hit, Outcome.ok_bind, breakLoop_mono (fun _ _ _ hturn => hturn) hle hy, Outcome.ok_bind]
  exact h

omit [DecidableEq K] [LawfulLruMap M] in
theorem collectSet_mono {set : Set} (h : collectSet on tg fuel session odid set acc st = .ok x) :
    collectSet on tg fuel' session odid set acc st = .ok x := by
  unfold collectSet at h ⊢
  cases hkind : set.kind with
  | template =>
    rw [hkind] at h
    exact collectTemplates_mono on hle h
  | optionsTemplate =>
    rw [hkind] at h
    exact collectTemplates_mono on hle h
  | data tid =>
    simp only [hkind] at h ⊢
    cases hget : (st.store.view session).get odid tid with
    | none =>
      simp only [hget] at h ⊢
      exact h
    | some t =>
      simp only [hget] at h ⊢
      obtain ⟨acc', hacc, h⟩ := Outcome.bind_eq_ok.mp h
      rw [collectRecords_mono on tg hle hacc, Outcome.ok_bind]
      exact h

omit [DecidableEq K] [LawfulLruMap M] in
theorem collectSets_mono {payload : Bytes}
    (h : collectSets on tg fuel session odid payload acc st = .ok x) :
    collectSets on tg fuel' session odid payload acc st = .ok x := by
  have hitem : ∀ item (acc : β × CollectorState M) turn,
      collectItem on tg fuel session odid item acc = .ok turn →
        collectItem on tg fuel' session odid item acc = .ok turn := by
    intro item acc turn hturn
    cases item with
    | error e => exact hturn
    | ok set =>
      obtain ⟨y, hy, hturn⟩ := Outcome.bind_eq_ok.mp hturn
      exact Outcome.bind_eq_ok.mpr ⟨y, collectSet_mono on tg hle hy, hturn⟩
  unfold collectSets at h ⊢
  obtain ⟨y, hy, h⟩ := Outcome.bind_eq_ok.mp h
  rw [breakLoop_mono hitem hle hy, Outcome.ok_bind]
  exact h

end mono

theorem collectSets_ne_ok (on : β → Seen → Outcome Unfinished β) (tg : Target) (fuel : Nat) (session : K)
    (odid : UInt32) {payload : Bytes} (hpayload : payload.length ≤ 65535) (acc : β)
    {st : CollectorState M} (hst : st.store.Sound (K := K))
    (hnone : (SessionTemplateStore.dictionary session).journal st.fbuf.length odid (setsIn payload)
      st.store = none) (x : β × CollectorState M) :
    collectSets on tg fuel session odid payload acc st ≠ .ok x := by
  intro h
  have hlong := collectSets_mono on tg (Nat.le_add_right fuel 65536) h
  have hfollows := collectSets_follows on tg (by omega : 65535 < fuel + 65536) session odid hpayload acc hst
  rw [hnone, hlong] at hfollows
  cases hfollows with
  | endless hne => exact hne x rfl

end IpfixParser

import IpfixParser.Proof.Flow

/-!
# What the collector prints

For every data record of a stream of datagrams the collector prints the flow that its fields say, with
the ODID, the time and the sequence number of its message, in the order of the stream
(`collectAll_eq`). It is one run against one store, under one session, and the records of well-formed
messages come out as they were put in (`emittedFor_exported`).
-/

namespace IpfixParser

open Lib

/-- The line printed for an item. -/
def Seen.printed (header : MessageHeader) : Seen → Option Printed
  | .setError e => some (.stderr s!"set decode error: {e}")
  | .record r => some (.json ⟨header.observationDomainId, header.exportTime, header.sequenceNumber,
      .ofFields r.values⟩)
  | _ => none

/-- The lines for a datagram. -/
def Observed.printed : Observed → List Printed
  | .error e => [.stderr s!"header decode error: {e}"]
  | .ok (header, seen) => seen.filterMap (Seen.printed header)

/-- The data records of a datagram. -/
def Observed.dataRecords : Observed → List DataRecord
  | .error _ => []
  | .ok (_, seen) => seen.filterMap Seen.dataRecord

/-- Every record's template has as few fields as `usize` can count. -/
def Readable (tg : Target) (seen : List Seen) : Prop :=
  ∀ r, .record r ∈ seen → r.template.fields.length ≤ tg.usizeMax

theorem Emitted.foldlM_see (tg : Target) (header : MessageHeader) {seen : List Seen}
    (hseen : Readable tg seen) {acc : Emitted} (hacc : acc.emitted ≤ tg.usizeMax) :
    seen.foldlM (Emitted.see tg header) acc =
      if acc.emitted + (seen.filterMap Seen.dataRecord).length ≤ tg.usizeMax then
        .ok ⟨acc.emitted + (seen.filterMap Seen.dataRecord).length,
          acc.lines ++ seen.filterMap (Seen.printed header)⟩
      else .panic := by
  induction seen generalizing acc with
  | nil => simp [hacc]
  | cons x seen ih =>
    have hrest : Readable tg seen := fun r hr => hseen r (.tail _ hr)
    rw [List.foldlM_cons]
    cases x with
    | record r =>
      have hsee : acc.see tg header (.record r) = (do
          let emitted ← usizeAdd tg acc.emitted 1
          return ⟨emitted, acc.lines ++ (Seen.printed header (.record r)).toList⟩) := by
        unfold see
        simp only [populateFlow_eq tg (hseen r (List.mem_cons_self ..)), Outcome.ok_bind]
        rfl
      rw [hsee]
      simp only [List.filterMap_cons, Seen.dataRecord, Seen.printed, List.length_cons, Option.toList_some]
      by_cases hroom : acc.emitted + 1 ≤ tg.usizeMax
      · rw [usizeAdd_eq hroom, Outcome.ok_bind, Outcome.pure_eq, Outcome.ok_bind, ih hrest hroom]
        simp only [Nat.add_assoc, Nat.add_comm 1, List.append_assoc, List.singleton_append]
        rfl
      · have hfull : ¬ acc.emitted + ((seen.filterMap Seen.dataRecord).length + 1) ≤ tg.usizeMax := by omega
        refine Eq.trans ?_ (if_neg hfull).symm
        rw [usizeAdd, if_neg hroom]
        rfl
    | setError e =>
      have htail := @ih hrest { acc with lines := acc.lines ++ [.stderr s!"set decode error: {e}"] } hacc
      simp only [List.append_assoc, List.singleton_append] at htail
      exact htail
    | template kind r outcome => exact ih hrest hacc
    | templateError kind e => exact ih hrest hacc
    | unknownTemplate id => exact ih hrest hacc
    | recordError e => exact ih hrest hacc

/-! ### Records of stored templates -/

section journal

variable {M K : Type} [DecidableEq K] [LruMap M (TemplateKey K) OwnedTemplate]
  {st st' : SessionTemplateStore M} {s : K} {n : Nat} {odid : UInt32} {seen : List Seen}

omit [DecidableEq K] in
theorem readable_tell (tg : Target) (s : K) (odid : UInt32) (kind : TemplateSetKind)
    (items : List (Result TemplateRecord)) (st : SessionTemplateStore M) :
    Readable tg ((SessionTemplateStore.dictionary s).tell odid kind items st).1 := by
  induction items generalizing st with
  | nil => exact fun r hr => absurd hr List.not_mem_nil
  | cons item items ih =>
    cases item with
    | ok t =>
      intro r hr
      rcases List.mem_cons.mp hr with heq | hr
      · cases heq
      · exact ih _ r hr
    | error e =>
      intro r hr
      rcases List.mem_cons.mp hr with heq | hr
      · cases heq
      · exact ih _ r hr

omit [DecidableEq K] in
theorem readable_read (tg : Target) (hst : st.Sound (K := K)) {set : Set}
    (hread : (SessionTemplateStore.dictionary s).read n odid set st = some (seen, st')) :
    Readable tg seen := by
  have hmax := tg.usizeMax_ge
  rcases Dictionary.read_cases hread with
    ⟨kind, -, htell⟩ | ⟨-, -, ⟨tid, rfl⟩ | ⟨tid, t, hget, hpos, rfl⟩⟩
  · have htold := readable_tell tg s odid kind (templatesIn n kind set.records) st
    rwa [htell] at htold
  · intro r hr
    cases List.mem_singleton.mp hr
  · intro r hr
    obtain ⟨item, hitem, heq⟩ := List.mem_map.mp hr
    obtain rfl : item = .ok r := by
      cases item with
      | ok r' => exact congrArg Except.ok (Seen.record.inj heq)
      | error e => cases heq
    obtain ⟨htemplate, -⟩ := (t.framing hpos).valid_of_mem (frames_recordsIn hpos set.records) hitem
    have hfields := hst.fields (s, odid, tid) t hget
    rw [htemplate]
    omega

theorem readable_journal [LawfulLruMap M] (tg : Target) (hst : st.Sound (K := K))
    {items : List (Result Set)}
    (hjournal : (SessionTemplateStore.dictionary s).journal n odid items st = some (seen, st')) :
    Readable tg seen := by
  induction items generalizing st st' seen with
  | nil =>
    obtain ⟨rfl, -⟩ := Prod.mk.inj (Option.some.inj hjournal)
    exact fun r hr => absurd hr List.not_mem_nil
  | cons item items ih =>
    cases item with
    | error e =>
      obtain ⟨rfl, -⟩ := Prod.mk.inj (Option.some.inj hjournal)
      intro r hr
      cases List.mem_singleton.mp hr
    | ok set =>
      obtain ⟨seen₁, st₁, rest, hread, hrest, rfl⟩ := Dictionary.journal_cons hjournal
      intro r hr
      rcases List.mem_append.mp hr with hr | hr
      · exact readable_read tg hst hread r hr
      · exact ih (hst.read hread) hrest r hr

end journal

/-! ### A stream of datagrams -/

section collect

variable {M : Type} [LruMap M (TemplateKey Unit) OwnedTemplate] [LawfulLruMap M]

/-- The payloads as the store sees them: under one session. -/
abbrev unitSession (payloads : List Bytes) : List (Unit × Bytes) := payloads.map fun buf => ((), buf)

/-- The records of a datagram counted and printed, if `emitted` has room for them. -/
def Emitted.after (tg : Target) (acc : Emitted) (observed : List Observed) : Outcome Unfinished Emitted :=
  if acc.emitted + (observed.flatMap Observed.dataRecords).length ≤ tg.usizeMax then
    .ok ⟨acc.emitted + (observed.flatMap Observed.dataRecords).length,
      acc.lines ++ observed.flatMap Observed.printed⟩
  else .panic

theorem collect_eq (tg : Target) (buf : Bytes) {acc : Emitted} (hacc : acc.emitted ≤ tg.usizeMax)
    {st : CollectorState M} (hst : st.store.Sound (K := Unit)) :
    (∀ o store, (SessionTemplateStore.dictionary ()).observe st.fbuf.length buf st.store =
        some (o, store) →
      ∀ fuel, 65535 < fuel → ∃ fbuf, fbuf.length = st.fbuf.length ∧ collect tg fuel buf acc st = (do
        let acc' ← acc.after tg [o]
        return (acc', ⟨store, fbuf⟩))) ∧
    ((SessionTemplateStore.dictionary ()).observe st.fbuf.length buf st.store = none →
      ∀ fuel out, collect tg fuel buf acc st ≠ .ok out) := by
  unfold Dictionary.observe collect
  cases hdec : MessageHeader.decode buf with
  | panic => exact absurd hdec (MessageHeader.decode_ne_panic buf)
  | err e =>
    refine ⟨fun o store h fuel _ => ⟨st.fbuf, rfl, ?_⟩, fun h => nomatch h⟩
    obtain ⟨rfl, rfl⟩ := Prod.mk.inj (Option.some.inj h)
    simp [Emitted.after, Observed.dataRecords, Observed.printed, hacc]
  | ok x =>
    obtain ⟨header, payload⟩ := x
    have hpayload := MessageHeader.length_payload_le hdec
    simp only [Outcome.attempt_ok, Outcome.ok_bind, Option.bind_eq_bind]
    constructor
    · intro o store h fuel hfuel
      obtain ⟨⟨seen, store'⟩, hjournal, h⟩ := Option.bind_eq_some_iff.mp h
      obtain ⟨rfl, rfl⟩ := Prod.mk.inj (Option.some.inj h)
      have hfold := Emitted.foldlM_see tg header (readable_journal tg hst hjournal) hacc
      have hafter : acc.after tg [.ok (header, seen)] = seen.foldlM (Emitted.see tg header) acc := by
        rw [hfold, Emitted.after, List.flatMap_singleton, List.flatMap_singleton]
        rfl
      have hfollows := collectSets_follows (Emitted.see tg header) tg hfuel ()
        header.observationDomainId (by omega : payload.length ≤ 65535) acc hst
      rw [hjournal] at hfollows
      rw [hafter]
      generalize collectSets (Emitted.see tg header) tg fuel () header.observationDomainId payload
        acc st = loops at hfollows
      cases hfollows with
      | @done _ _ acc' fbuf hdone hfbuf => exact ⟨fbuf, hfbuf, by rw [hdone]; rfl⟩
      | failed herr => exact ⟨st.fbuf, rfl, by rw [herr]; rfl⟩
      | panicked hpanic => exact ⟨st.fbuf, rfl, by rw [hpanic]; rfl⟩
    · intro h fuel out hout
      have hnone := Option.map_eq_none_iff.mp ((Option.map_eq_bind ..).trans h)
      exact collectSets_ne_ok (Emitted.see tg header) tg fuel () header.observationDomainId
        (by omega) acc hst hnone out hout

omit [LawfulLruMap M] in
theorem collect_mono {tg : Target} {fuel fuel' : Nat} (hle : fuel ≤ fuel') {buf : Bytes} {acc : Emitted}
    {st : CollectorState M} {out : Emitted × CollectorState M} (h : collect tg fuel buf acc st = .ok out) :
    collect tg fuel' buf acc st = .ok out := by
  unfold collect at h ⊢
  obtain ⟨decoded, hdec, h⟩ := Outcome.bind_eq_ok.mp h
  rw [hdec, Outcome.ok_bind]
  cases decoded with
  | error e => exact h
  | ok x => exact collectSets_mono (Emitted.see tg x.1) tg hle h

theorem Emitted.after_cons (tg : Target) (acc : Emitted) (o : Observed) (observed : List Observed) :
    acc.after tg (o :: observed) = (do (← acc.after tg [o]).after tg observed) := by
  unfold after
  simp only [List.flatMap_cons, List.flatMap_nil, List.append_nil, List.length_append]
  by_cases hroom : acc.emitted + o.dataRecords.length ≤ tg.usizeMax
  · rw [if_pos hroom, Outcome.ok_bind]
    simp only [Nat.add_assoc, List.append_assoc]
  · rw [if_neg hroom, if_neg (by omega)]
    rfl

theorem Emitted.after_le {tg : Target} {acc acc' : Emitted} {observed : List Observed}
    (h : acc.after tg observed = .ok acc') : acc'.emitted ≤ tg.usizeMax := by
  unfold after at h
  split_ifs at h with hroom
  obtain rfl := Outcome.ok.inj h
  exact hroom

/-- The collector's loop on payloads, from any state that it can be in. -/
theorem collectAll_eq (tg : Target) (payloads : List Bytes) {acc : Emitted}
    (hacc : acc.emitted ≤ tg.usizeMax) {st : CollectorState M} (hst : st.store.Sound (K := Unit)) :
    (∀ observed store, SessionTemplateStore.observeAll st.fbuf.length (unitSession payloads) st.store =
        some (observed, store) →
      ∀ fuel, 65535 < fuel → ∃ fbuf, fbuf.length = st.fbuf.length ∧
        collectAll tg fuel payloads acc st = (do
          let acc' ← acc.after tg observed
          return (acc', ⟨store, fbuf⟩))) ∧
    (SessionTemplateStore.observeAll st.fbuf.length (unitSession payloads) st.store = none →
      ∀ fuel out, collectAll tg fuel payloads acc st ≠ .ok out) := by
  induction payloads generalizing acc st with
  | nil =>
    refine ⟨fun observed store h fuel _ => ⟨st.fbuf, rfl, ?_⟩, fun h => nomatch h⟩
    obtain ⟨rfl, rfl⟩ := Prod.mk.inj (Option.some.inj h)
    simp [collectAll, Emitted.after, hacc]
  | cons buf payloads ih =>
    obtain ⟨hreturns, hendless⟩ := collect_eq tg buf hacc hst
    unfold unitSession
    rw [List.map_cons]
    constructor
    · intro observed store h fuel hfuel
      obtain ⟨o, store₁, rest, hobserve, hrest, rfl⟩ := SessionTemplateStore.observeAll_cons h
      obtain ⟨fbuf₁, hlen₁, hcollect⟩ := hreturns o store₁ hobserve fuel hfuel
      rw [collectAll, hcollect, Emitted.after_cons tg acc o rest]
      cases hafter : acc.after tg [o] with
      | err e => exact ⟨st.fbuf, rfl, rfl⟩
      | panic => exact ⟨st.fbuf, rfl, rfl⟩
      | ok acc₁ =>
        have htail := @ih _ (Emitted.after_le hafter) ⟨store₁, fbuf₁⟩ (hst.observe hobserve)
        rw [hlen₁] at htail
        exact htail.1 rest store hrest fuel hfuel
    · intro h fuel out hout
      rw [collectAll] at hout
      obtain ⟨⟨acc₁, st₁⟩, hcollect, hcollectAll⟩ := Outcome.bind_eq_ok.mp hout
      cases hobserve : (SessionTemplateStore.dictionary ()).observe st.fbuf.length buf st.store with
      | none => exact hendless hobserve fuel _ hcollect
      | some told =>
        obtain ⟨o, store₁⟩ := told
        -- the bound is enough for this datagram, so a larger one gives the same state
        have hlong := collect_mono (Nat.le_add_right fuel 65536) hcollect
        obtain ⟨fbuf₁, hlen₁, heq⟩ := hreturns o store₁ hobserve (fuel + 65536) (by omega)
        rw [heq] at hlong
        obtain ⟨acc', hafter, hst₁⟩ := Outcome.bind_eq_ok.mp hlong
        obtain ⟨rfl, rfl⟩ := Prod.mk.inj (Outcome.ok.inj hst₁)
        have htail := @ih _ (Emitted.after_le hafter) ⟨store₁, fbuf₁⟩ (hst.observe hobserve)
        rw [hlen₁] at htail
        rw [SessionTemplateStore.observeAll, hobserve] at h
        exact htail.2 (Option.map_eq_none_iff.mp ((Option.map_eq_bind ..).trans h)) fuel _ hcollectAll

theorem emittedFor_of_observed (tg : Target) {payloads : List Bytes} {observed : List Observed}
    {store : SessionTemplateStore M} (hobserve : SessionTemplateStore.observeAll 128 (unitSession payloads)
      .new = some (observed, store)) {fuel : Nat} (hfuel : 65535 < fuel) :
    emittedFor M tg fuel payloads =
      if (observed.flatMap Observed.dataRecords).length ≤ tg.usizeMax then
        .ok (observed.flatMap Observed.printed ++
          [.stderr s!"emitted {(observed.flatMap Observed.dataRecords).length} flow records"])
      else .panic := by
  have hlen : (CollectorState.start : CollectorState M).fbuf.length = 128 := List.length_replicate
  have hzero : (⟨0, []⟩ : Emitted).emitted ≤ tg.usizeMax := Nat.zero_le _
  have hrun := (collectAll_eq tg payloads hzero (sound_start (M := M))).1
  rw [hlen] at hrun
  obtain ⟨fbuf, -, heq⟩ := hrun observed store hobserve fuel hfuel
  unfold emittedFor
  rw [heq, Emitted.after, Nat.zero_add]
  split_ifs <;> rfl

/-- The collector prints the flows of all data records that are observed, in order, and then how many
there are; it panics if they are too many to count, and never gets to the end of a stream that has none. -/
theorem emittedFor_eq (M : Type) [LruMap M (TemplateKey Unit) OwnedTemplate] [LawfulLruMap M]
    (tg : Target) (payloads : List Bytes) :
    (∀ observed store, SessionTemplateStore.observeAll 128 (unitSession payloads)
        (.new : SessionTemplateStore M) = some (observed, store) →
      ∀ fuel, 65535 < fuel → emittedFor M tg fuel payloads =
        if (observed.flatMap Observed.dataRecords).length ≤ tg.usizeMax then
          .ok (observed.flatMap Observed.printed ++
            [.stderr s!"emitted {(observed.flatMap Observed.dataRecords).length} flow records"])
        else .panic) ∧
    (SessionTemplateStore.observeAll 128 (unitSession payloads) (.new : SessionTemplateStore M) = none →
      ∀ fuel out, emittedFor M tg fuel payloads ≠ .ok out) := by
  refine ⟨fun observed store hobserve fuel hfuel => emittedFor_of_observed tg hobserve hfuel, ?_⟩
  intro hnone fuel out hout
  have hlen : (CollectorState.start : CollectorState M).fbuf.length = 128 := List.length_replicate
  have hzero : (⟨0, []⟩ : Emitted).emitted ≤ tg.usizeMax := Nat.zero_le _
  have hrun := (collectAll_eq tg payloads hzero (sound_start (M := M))).2
  rw [hlen] at hrun
  obtain ⟨x, hx, -⟩ := Outcome.bind_eq_ok.mp hout
  exact hrun hnone fuel x hx

theorem emittedFor_eq_cut_off :
    let datagram : Bytes := [0, 10, 0, 36, 0, 0, 0, 2, 0, 0, 0, 3, 0, 0, 0, 1,
      0, 2, 0, 12, 1, 0, 0, 1, 0, 7, 0, 2, 1, 0, 0, 8, 1, 187, 0, 80]
    emittedFor (RecencyList (TemplateKey Unit) OwnedTemplate) .le64 65536 [datagram.take 10, datagram] =
      .ok [.stderr "header decode error: unexpected end of input",
        .json ⟨1, 2, 3, { Flow.default with srcPort := some 443 }⟩,
        .json ⟨1, 2, 3, { Flow.default with srcPort := some 80 }⟩,
        .stderr "emitted 2 flow records"] := by
  intro datagram
  have hprinted : (SessionTemplateStore.observeAll 128 (unitSession [datagram.take 10, datagram])
      (.new : SessionTemplateStore (RecencyList (TemplateKey Unit) OwnedTemplate))).map (fun x =>
        (x.1.flatMap Observed.printed, (x.1.flatMap Observed.dataRecords).length)) =
      some ([.stderr "header decode error: unexpected end of input",
        .json ⟨1, 2, 3, { Flow.default with srcPort := some 443 }⟩,
        .json ⟨1, 2, 3, { Flow.default with srcPort := some 80 }⟩], 2) := by
    decide
  obtain ⟨⟨observed, store⟩, hobserve, hlines⟩ := Option.map_eq_some_iff.mp hprinted
  obtain ⟨hlines, hcount⟩ := Prod.mk.inj hlines
  have hrun := (emittedFor_eq (RecencyList (TemplateKey Unit) OwnedTemplate) .le64
    [datagram.take 10, datagram]).1 observed store hobserve 65536 (by decide)
  rw [hrun, hlines, hcount]
  rfl

/-! ### Exported messages -/

/-- The flows of a message, as its exporter knows them. -/
def ExportedMessage.flows (msg : ExportedMessage) : List FlowRecord :=
  (msg.sets.flatMap fun
    | .templates _ _ _ => []
    | .data t records _ => records.map (List.zipWith Encoded.value t.fields)).map fun fields =>
      ⟨msg.observationDomainId, msg.exportTime, msg.sequenceNumber, .ofFields fields⟩

omit [LruMap M (TemplateKey Unit) OwnedTemplate] [LawfulLruMap M] in
/-- The lines for a message that is seen as it was put together. -/
theorem ExportedMessage.SeenAs.printed {n : Nat} {msg : ExportedMessage} (hvalid : msg.Valid n)
    {o : Observed} (h : msg.SeenAs o) :
    o.printed = msg.flows.map .json ∧ o.dataRecords.length = msg.flows.length := by
  obtain ⟨seen, rfl, hclean⟩ := h
  have hquiet : seen.filterMap (Seen.printed msg.header) = (seen.filterMap Seen.dataRecord).map fun r =>
      .json ⟨msg.observationDomainId, msg.exportTime, msg.sequenceNumber, .ofFields r.values⟩ := by
    rw [List.map_filterMap]
    apply List.filterMap_congr
    intro x hx
    have hx := hclean.quiet x hx
    cases x with
    | setError e => simp [Seen.accepted, Seen.isRecord] at hx
    | record r => rfl
    | template kind r outcome => rfl
    | templateError kind e => rfl
    | unknownTemplate id => rfl
    | recordError e => rfl
  have hvalues : msg.dataRecords.map DataRecord.values = msg.sets.flatMap fun
      | .templates _ _ _ => []
      | .data t records _ => records.map (List.zipWith Encoded.value t.fields) := by
    unfold dataRecords
    rw [List.map_flatMap]
    apply List.flatMap_congr
    intro s hs
    cases s with
    | templates kind records pad => rfl
    | data t records pad =>
      obtain ⟨-, -, -, hrecords, -⟩ := hvalid.sets _ hs
      simp only [ExportedSet.dataRecords, List.map_map]
      exact List.map_congr_left fun es hes => DataRecord.values_rawRecord (hrecords es hes)
  have hflows : msg.flows = msg.dataRecords.map fun r =>
      ⟨msg.observationDomainId, msg.exportTime, msg.sequenceNumber, .ofFields r.values⟩ := by
    unfold flows
    rw [← hvalues, List.map_map]
    rfl
  constructor
  · rw [hflows, List.map_map]
    exact hquiet.trans (by rw [hclean.records]; rfl)
  · rw [hflows, List.length_map]
    exact congrArg List.length hclean.records

omit [LruMap M (TemplateKey Unit) OwnedTemplate] [LawfulLruMap M] in
theorem Exports.valid {n : Nat} {k : Knowledge} {msgs : List ExportedMessage} (h : Exports n k msgs) :
    ∀ msg ∈ msgs, msg.Valid n := by
  induction msgs generalizing k with
  | nil => exact fun msg hmsg => absurd hmsg List.not_mem_nil
  | cons msg msgs ih => exact List.forall_mem_cons.mpr ⟨h.1.valid, ih h.2⟩

/-- The messages of an exporter that keeps to the protocol come out as the flows that were put in, each
with the ODID, the time and the sequence number of its message. -/
theorem emittedFor_exported (M : Type) [LruMap M (TemplateKey Unit) OwnedTemplate] [LawfulLruMap M]
    (tg : Target) {msgs : List ExportedMessage} (hexports : Exports 128 .empty msgs)
    (hroom : (msgs.flatMap fun msg => definedKeys () msg.observationDomainId msg.definitions).dedup.length ≤
      4096) (hcount : (msgs.flatMap ExportedMessage.flows).length ≤ tg.usizeMax) {fuel : Nat}
    (hfuel : 65535 < fuel) :
    emittedFor M tg fuel (msgs.map ExportedMessage.encode) =
      .ok ((msgs.flatMap ExportedMessage.flows).map .json ++
        [.stderr s!"emitted {(msgs.flatMap ExportedMessage.flows).length} flow records"]) := by
  have hself : ∀ s, messagesOf s (msgs.map fun msg => ((), msg)) = msgs := by
    intro s
    unfold messagesOf
    rw [List.filter_eq_self.mpr fun _ _ => decide_eq_true rfl, List.map_map]
    exact List.map_id msgs
  have hkeys : ∀ x ∈ msgs.map fun msg => ((), msg),
      definedKeys x.1 x.2.observationDomainId x.2.definitions ⊆
        msgs.flatMap fun msg => definedKeys () msg.observationDomainId msg.definitions := by
    intro x hx key hkey
    obtain ⟨msg, hmsg, rfl⟩ := List.mem_map.mp hx
    exact List.mem_flatMap.mpr ⟨msg, hmsg, hkey⟩
  have hexportsAll : ∀ s, Exports 128 .empty (messagesOf s (msgs.map fun msg => ((), msg))) :=
    fun s => by rwa [hself s]
  obtain ⟨observed, store, hobserve, hseen, -⟩ := (holds_start (M := M) hroom).exports hkeys hexportsAll
  have hsent : sent (msgs.map fun msg => ((), msg)) = unitSession (msgs.map ExportedMessage.encode) := by
    simp [sent, unitSession]
  rw [hsent] at hobserve
  have hflows : observed.flatMap Observed.printed = (msgs.flatMap ExportedMessage.flows).map .json ∧
      (observed.flatMap Observed.dataRecords).length = (msgs.flatMap ExportedMessage.flows).length := by
    have hvalid := hexports.valid
    rw [List.forall₂_map_left_iff] at hseen
    clear hobserve hsent hself hroom hexports hcount hkeys hexportsAll
    induction hseen with
    | nil => exact ⟨rfl, rfl⟩
    | @cons msg o msgs observed ho _ ih =>
      obtain ⟨hmsg, hmsgs⟩ := List.forall_mem_cons.mp hvalid
      obtain ⟨hprinted, hcount⟩ := ho.printed hmsg
      obtain ⟨hprinteds, hcounts⟩ := ih hmsgs
      simp only [List.flatMap_cons, List.map_append, List.length_append, hprinted, hprinteds, hcount,
        hcounts, and_self]
  rw [emittedFor_of_observed tg hobserve hfuel, hflows.1, hflows.2, if_pos hcount]

end collect

theorem emittedFor_exported_one :
    let t : TemplateRecord := ⟨256, 0, [⟨8, none, 4⟩, ⟨7, none, 2⟩]⟩
    let msg : ExportedMessage := ⟨1700000000, 7, 42, [.templates .template [t] [],
      .data (.ofRecord t) [[.fixed [10, 0, 0, 1], .fixed [1, 187]]] []]⟩
    emittedFor (RecencyList (TemplateKey Unit) OwnedTemplate) .le64 65536 [msg.encode] =
      .ok [.json ⟨42, 1700000000, 7, { Flow.default with
        version := "v4", srcAddr := some "10.0.0.1", srcPort := some 443 }⟩,
        .stderr "emitted 1 flow records"] := by
  intro t msg
  have hinOrder : msg.InOrder 128 .empty := by
    refine ExportedMessage.inOrder_of_template rfl ⟨⟨by decide, by decide, by decide, rfl⟩, ?_⟩ (by decide)
      ⟨⟨8, none, 4⟩, by simp [t], by decide⟩ ?_ (by decide) (by decide)
    · simp [t, FieldSpecifier.WellFormed]
    · simp only [List.mem_singleton, forall_eq]
      exact .cons ⟨by decide, rfl⟩ (.cons ⟨by decide, rfl⟩ .nil)
  have hflows : [msg].flatMap ExportedMessage.flows = [⟨42, 1700000000, 7, { Flow.default with
      version := "v4", srcAddr := some "10.0.0.1", srcPort := some 443 }⟩] := by decide
  have hexports : Exports 128 .empty [msg] := ⟨hinOrder, trivial⟩
  have hrun := emittedFor_exported (RecencyList (TemplateKey Unit) OwnedTemplate) .le64 hexports (by decide)
    (by decide) (by decide : 65535 < 65536)
  rw [hflows] at hrun
  exact hrun

end IpfixParser

import IpfixParser.Proof.Collector

/-!
# What the receiver prints

The lines for a datagram are a function of what is observed of it (`Observed.lines`), and a stream of
datagrams is observed one after another against one store (`SessionTemplateStore.observeAll`). The
receiver's loop computes just that, or does not return (`receiveAll_eq`).
-/

namespace IpfixParser

open Lib

/-! ### The tally of a message -/

/-- A template that the receiver counts. -/
def Seen.accepted : Seen → Bool
  | .template _ _ outcome => outcome != .collision
  | _ => false

/-- A data record. -/
def Seen.isRecord : Seen → Bool
  | .record _ => true
  | _ => false

section receiver

variable {P K M : Type} [ToString P]

/-- The complaint printed for an item. -/
def Seen.complaint (peer : P) : Seen → Option Line
  | .setError e => some (.stderr s!"{peer}: set decode error: {e}")
  | .template kind r .collision =>
    let id := r.id
    some (.stderr (match kind with
      | .template => s!"{peer}: template id {id} collision (RFC 7011 §8); ignoring"
      | .optionsTemplate => s!"{peer}: options template id {id} collision (RFC 7011 §8); ignoring"))
  | .templateError kind e =>
    some (.stderr (match kind with
      | .template => s!"{peer}: template error: {e}"
      | .optionsTemplate => s!"{peer}: options template error: {e}"))
  | .unknownTemplate tid => some (.stderr s!"{peer}: data set for unknown template {tid}")
  | .recordError e => some (.stderr s!"{peer}: record decode error: {e}")
  | _ => none

/-- The tally of a message. -/
def Tally.of (peer : P) (seen : List Seen) : Tally where
  templates := seen.countP Seen.accepted
  records := seen.countP Seen.isRecord
  lines := seen.filterMap (Seen.complaint peer)

/-- The lines for a datagram. -/
def Observed.lines (peer : P) : Observed → List Line
  | .error e => [.stderr s!"{peer}: header decode error: {e}"]
  | .ok (header, seen) =>
    (Tally.of peer seen).lines ++ [.stdout ((Tally.of peer seen).summary peer header)]

/-- One item more. -/
def Tally.add (peer : P) (t : Tally) (x : Seen) : Tally where
  templates := t.templates + if x.accepted then 1 else 0
  records := t.records + if x.isRecord then 1 else 0
  lines := t.lines ++ (x.complaint peer).toList

theorem Tally.see_eq (tg : Target) (peer : P) {t : Tally} {x : Seen}
    (htemplates : t.templates + 1 ≤ tg.usizeMax) (hrecords : t.records + 1 ≤ tg.usizeMax) :
    t.see tg peer x = .ok (t.add peer x) := by
  unfold see add
  cases x with
  | setError e => rfl
  | template kind record outcome =>
    cases outcome with
    | inserted => simp [usizeAdd_eq htemplates, Seen.accepted, Seen.isRecord, Seen.complaint]
    | alreadyPresent => simp [usizeAdd_eq htemplates, Seen.accepted, Seen.isRecord, Seen.complaint]
    | collision => cases kind <;> rfl
  | templateError kind e => cases kind <;> rfl
  | unknownTemplate id => rfl
  | record record => simp [usizeAdd_eq hrecords, Seen.accepted, Seen.isRecord, Seen.complaint]
  | recordError e => rfl

theorem Tally.foldl_add (peer : P) (seen : List Seen) :
    seen.foldl (Tally.add peer) ⟨0, 0, []⟩ = Tally.of peer seen := by
  induction seen using List.reverseRecOn with
  | nil => rfl
  | append_singleton seen x ih =>
    rw [List.foldl_append, ih]
    cases hx : x.complaint peer <;> simp [Tally.add, Tally.of, List.countP_cons, hx]

theorem Tally.foldlM_see (tg : Target) (peer : P) {seen : List Seen} (hlen : seen.length ≤ 65535) :
    seen.foldlM (Tally.see tg peer) ⟨0, 0, []⟩ = .ok (Tally.of peer seen) := by
  have hmax := tg.usizeMax_ge
  induction seen using List.reverseRecOn with
  | nil => rfl
  | append_singleton seen x ih =>
    rw [List.length_append, List.length_singleton] at hlen
    rw [List.foldlM_append, ih (by omega), Outcome.ok_bind, ← foldl_add peer (seen ++ [x]),
      List.foldl_append, foldl_add]
    have htemplates : (Tally.of peer seen).templates ≤ seen.length := List.countP_le_length
    have hrecords : (Tally.of peer seen).records ≤ seen.length := List.countP_le_length
    exact (bind_pure _).trans (see_eq tg peer (by omega) (by omega))

/-! ### A datagram -/

variable [DecidableEq K] [LruMap M (TemplateKey K) OwnedTemplate] [LawfulLruMap M]

theorem MessageHeader.length_payload_le {b payload : Bytes} {header : MessageHeader}
    (h : decode b = .ok (header, payload)) : payload.length ≤ 65519 := by
  obtain ⟨-, hof⟩ := decode_eq_ok_iff.mp h
  obtain ⟨rfl, rfl⟩ := Prod.mk.inj hof
  have hword := (u16At b 2).toNat_lt
  have hheader : headerLen = 16 := rfl
  rw [List.length_take]
  omega

theorem receive_eq (tg : Target) (ip : P → K) (peer : P) (datagram : Bytes) {st : CollectorState M}
    (hst : st.store.Sound (K := K)) :
    (∀ observed store, (SessionTemplateStore.dictionary (ip peer)).observe st.fbuf.length datagram
        st.store = some (observed, store) →
      ∀ fuel, 65535 < fuel → ∃ fbuf, fbuf.length = st.fbuf.length ∧
        receive tg fuel ip peer datagram st = .ok (observed.lines peer, ⟨store, fbuf⟩)) ∧
    ((SessionTemplateStore.dictionary (ip peer)).observe st.fbuf.length datagram st.store = none →
      ∀ fuel out, receive tg fuel ip peer datagram st ≠ .ok out) := by
  unfold Dictionary.observe receive
  cases hdec : MessageHeader.decode datagram with
  | panic => exact absurd hdec (MessageHeader.decode_ne_panic datagram)
  | err e =>
    refine ⟨fun observed store h fuel _ => ⟨st.fbuf, rfl, ?_⟩, fun h => nomatch h⟩
    obtain ⟨rfl, rfl⟩ := Prod.mk.inj (Option.some.inj h)
    rfl
  | ok x =>
    obtain ⟨header, payload⟩ := x
    have hpayload := MessageHeader.length_payload_le hdec
    simp only [Outcome.attempt_ok, Outcome.ok_bind, Option.bind_eq_bind]
    constructor
    · intro observed store h fuel hfuel
      obtain ⟨⟨seen, store'⟩, hjournal, h⟩ := Option.bind_eq_some_iff.mp h
      obtain ⟨rfl, rfl⟩ := Prod.mk.inj (Option.some.inj h)
      have hlen := Dictionary.length_journal_le (frames_setsIn payload) hjournal
      have hfold := Tally.foldlM_see tg peer (by omega : seen.length ≤ 65535)
      have hfollows := collectSets_follows (Tally.see tg peer) tg hfuel (ip peer)
        header.observationDomainId (by omega : payload.length ≤ 65535) ⟨0, 0, []⟩ hst
      rw [hjournal] at hfollows
      generalize collectSets (Tally.see tg peer) tg fuel (ip peer) header.observationDomainId payload
        ⟨0, 0, []⟩ st = loops at hfollows
      cases hfollows with
      | @done _ _ tally fbuf htally hfbuf =>
        obtain rfl : Tally.of peer seen = tally := Outcome.ok.inj (hfold.symm.trans htally)
        exact ⟨fbuf, hfbuf, rfl⟩
      | failed herr => simp [hfold] at herr
      | panicked hpanic => simp [hfold] at hpanic
    · intro h fuel out hout
      have hnone := Option.map_eq_none_iff.mp ((Option.map_eq_bind ..).trans h)
      obtain ⟨loops, hloops, -⟩ := Outcome.bind_eq_ok.mp hout
      exact collectSets_ne_ok (Tally.see tg peer) tg fuel (ip peer) header.observationDomainId
        (by omega) _ hst hnone loops hloops

omit [DecidableEq K] [LawfulLruMap M] in
theorem receive_mono {tg : Target} {fuel fuel' : Nat} (hle : fuel ≤ fuel') {ip : P → K} {peer : P}
    {datagram : Bytes} {st : CollectorState M} {out : List Line × CollectorState M}
    (h : receive tg fuel ip peer datagram st = .ok out) :
    receive tg fuel' ip peer datagram st = .ok out := by
  unfold receive at h ⊢
  obtain ⟨decoded, hdec, h⟩ := Outcome.bind_eq_ok.mp h
  rw [hdec, Outcome.ok_bind]
  cases decoded with
  | error e => exact h
  | ok x =>
    obtain ⟨loops, hloops, h⟩ := Outcome.bind_eq_ok.mp h
    simp only [collectSets_mono (Tally.see tg peer) tg hle hloops, Outcome.ok_bind]
    exact h

/-! ### A stream of datagrams -/

theorem SessionTemplateStore.Sound.observe {st st' : SessionTemplateStore M} (h : st.Sound) {session : K}
    {n : Nat} {datagram : Bytes} {observed : Observed}
    (hobserve : (dictionary session).observe n datagram st = some (observed, st')) : st'.Sound :=
  Dictionary.observe_keeps
    (fun _ ht odid _ hr => ht.insert session odid (length_fields_of_mem_taught hr)) h hobserve

/-- A stream as the store sees it. -/
abbrev sessionsOf (ip : P → K) (stream : List (P × Bytes)) : List (K × Bytes) :=
  stream.map fun x => (ip x.1, x.2)

/-- The lines for each datagram of a stream. -/
abbrev linesOf (stream : List (P × Bytes)) (observed : List Observed) : List (List Line) :=
  List.zipWith (fun x o => o.lines x.1) stream observed

/-- The receiver on a stream, from any state that it can be in. -/
theorem receiveAll_eq (tg : Target) (ip : P → K) (stream : List (P × Bytes)) {st : CollectorState M}
    (hst : st.store.Sound (K := K)) :
    (∀ observed store, SessionTemplateStore.observeAll st.fbuf.length (sessionsOf ip stream) st.store =
        some (observed, store) →
      ∀ fuel, 65535 < fuel → ∃ fbuf, fbuf.length = st.fbuf.length ∧
        receiveAll tg fuel ip stream st = .ok (linesOf stream observed, ⟨store, fbuf⟩)) ∧
    (SessionTemplateStore.observeAll st.fbuf.length (sessionsOf ip stream) st.store = none →
      ∀ fuel out, receiveAll tg fuel ip stream st ≠ .ok out) := by
  induction stream generalizing st with
  | nil =>
    refine ⟨fun observed store h fuel _ => ⟨st.fbuf, rfl, ?_⟩, fun h => nomatch h⟩
    obtain ⟨rfl, rfl⟩ := Prod.mk.inj (Option.some.inj h)
    rfl
  | cons x stream ih =>
    obtain ⟨peer, datagram⟩ := x
    obtain ⟨hreturns, hendless⟩ := receive_eq tg ip peer datagram hst
    unfold sessionsOf
    rw [List.map_cons]
    constructor
    · intro observed store h fuel hfuel
      obtain ⟨o, store₁, rest, hobserve, hrest, rfl⟩ := SessionTemplateStore.observeAll_cons h
      obtain ⟨fbuf₁, hlen₁, hreceive⟩ := hreturns o store₁ hobserve fuel hfuel
      have htail := @ih ⟨store₁, fbuf₁⟩ (hst.observe hobserve)
      rw [hlen₁] at htail
      obtain ⟨fbuf₂, hlen₂, hreceiveAll⟩ := htail.1 rest store hrest fuel hfuel
      refine ⟨fbuf₂, hlen₂, ?_⟩
      simp only [receiveAll, hreceive, Outcome.ok_bind, hreceiveAll]
      rfl
    · intro h fuel out hout
      rw [receiveAll] at hout
      obtain ⟨⟨lines, st₁⟩, hreceive, hout⟩ := Outcome.bind_eq_ok.mp hout
      obtain ⟨⟨rest, st₂⟩, hreceiveAll, -⟩ := Outcome.bind_eq_ok.mp hout
      cases hobserve : (SessionTemplateStore.dictionary (ip peer)).observe st.fbuf.length datagram
          st.store with
      | none => exact hendless hobserve fuel _ hreceive
      | some told =>
        obtain ⟨o, store₁⟩ := told
        -- the bound is enough for this datagram, so a larger one gives the same state
        have hlong := receive_mono (Nat.le_add_right fuel 65536) hreceive
        obtain ⟨fbuf₁, hlen₁, heq⟩ := hreturns o store₁ hobserve (fuel + 65536) (by omega)
        rw [hlong] at heq
        obtain ⟨-, rfl⟩ := Prod.mk.inj (Outcome.ok.inj heq)
        have htail := @ih ⟨store₁, fbuf₁⟩ (hst.observe hobserve)
        rw [hlen₁] at htail
        rw [SessionTemplateStore.observeAll, hobserve] at h
        exact htail.2 (Option.map_eq_none_iff.mp ((Option.map_eq_bind ..).trans h)) fuel _ hreceiveAll

theorem receiveAll_ok_iff (tg : Target) (ip : P → K) (stream : List (P × Bytes)) {st : CollectorState M}
    (hst : st.store.Sound (K := K)) :
    (∃ fuel out, receiveAll tg fuel ip stream st = .ok out) ↔
      SessionTemplateStore.observeAll st.fbuf.length (sessionsOf ip stream) st.store ≠ none := by
  obtain ⟨hreturns, hendless⟩ := receiveAll_eq tg ip stream hst
  constructor
  · rintro ⟨fuel, out, hout⟩ hnone
    exact hendless hnone fuel out hout
  · intro hsome
    obtain ⟨⟨observed, store⟩, hobserve⟩ := Option.ne_none_iff_exists'.mp hsome
    obtain ⟨fbuf, -, heq⟩ := hreturns observed store hobserve 65536 (by omega)
    exact ⟨65536, _, heq⟩

theorem observed_of_receiveAll {tg : Target} {ip : P → K} {stream : List (P × Bytes)}
    {st st' : CollectorState M} (hst : st.store.Sound (K := K)) {fuel : Nat} (hfuel : 65535 < fuel)
    {out : List (List Line)} (h : receiveAll tg fuel ip stream st = .ok (out, st')) :
    ∃ observed, SessionTemplateStore.observeAll st.fbuf.length (sessionsOf ip stream) st.store =
      some (observed, st'.store) ∧ out = linesOf stream observed := by
  obtain ⟨hreturns, hendless⟩ := receiveAll_eq tg ip stream hst
  cases hobserve : SessionTemplateStore.observeAll st.fbuf.length (sessionsOf ip stream) st.store with
  | none => exact absurd h (hendless hobserve fuel _)
  | some told =>
    obtain ⟨observed, store⟩ := told
    obtain ⟨fbuf, -, heq⟩ := hreturns observed store hobserve fuel hfuel
    rw [heq] at h
    obtain ⟨rfl, rfl⟩ := Prod.mk.inj (Outcome.ok.inj h)
    exact ⟨observed, rfl, rfl⟩

theorem SessionTemplateStore.sound_withCapacity (c : UInt32) :
    (withCapacity c : SessionTemplateStore M).Sound (K := K) where
  bounded := by simp
  fields := by
    intro key t ht
    rw [lookup_eq, table_withCapacity] at ht
    cases ht

/-- The receiver started on a new store, whatever its scratch buffer holds: it prints for each datagram the
lines for what is observed of it and keeps the store of the observation, or it never gets to the end. -/
theorem receiver_lines (M : Type) [LruMap M (TemplateKey K) OwnedTemplate] [LawfulLruMap M] (tg : Target)
    (ip : P → K) (stream : List (P × Bytes)) {fbuf : List FieldSpecifier} (hfbuf : fbuf.length = 128) :
    (∀ observed store, SessionTemplateStore.observeAll 128 (sessionsOf ip stream)
        (.new : SessionTemplateStore M) = some (observed, store) →
      ∀ fuel, 65535 < fuel → ∃ fbuf', fbuf'.length = 128 ∧
        receiveAll tg fuel ip stream ⟨.new, fbuf⟩ = .ok (linesOf stream observed, ⟨store, fbuf'⟩)) ∧
    (SessionTemplateStore.observeAll 128 (sessionsOf ip stream) (.new : SessionTemplateStore M) = none →
      ∀ fuel out, receiveAll tg fuel ip stream (⟨.new, fbuf⟩ : CollectorState M) ≠ .ok out) := by
  have hsound : (SessionTemplateStore.new : SessionTemplateStore M).Sound (K := K) :=
    SessionTemplateStore.sound_withCapacity defaultCapacity
  have hrun := @receiveAll_eq _ _ M _ _ _ _ tg ip stream ⟨.new, fbuf⟩ hsound
  rwa [show (⟨.new, fbuf⟩ : CollectorState M).fbuf.length = 128 from hfbuf] at hrun

end receiver

theorem receiver_lines_unknown_template :
    let datagram : Bytes := [0, 10, 0, 41, 0, 0, 0, 2, 0, 0, 0, 3, 0, 0, 0, 1,
      0, 2, 0, 12, 1, 0, 0, 1, 0, 7, 0, 2, 1, 0, 0, 8, 1, 187, 0, 80, 1, 1, 0, 5, 0]
    ∃ st, receiveAll .le64 65536 id [("[::1]:4739", datagram)]
        (⟨.new, List.replicate 128 ⟨9, none, 9⟩⟩ :
          CollectorState (RecencyList (TemplateKey String) OwnedTemplate)) =
      .ok ([[.stderr "[::1]:4739: data set for unknown template 257",
        .stdout "[::1]:4739 odid=1 seq=3 len=41 templates+=1 records+=2"]], st) := by
  intro datagram
  have hlines : (SessionTemplateStore.observeAll 128 (sessionsOf id [("[::1]:4739", datagram)])
      (.new : SessionTemplateStore (RecencyList (TemplateKey String) OwnedTemplate))).map (fun x =>
        linesOf [("[::1]:4739", datagram)] x.1) =
      some [[.stderr "[::1]:4739: data set for unknown template 257",
        .stdout "[::1]:4739 odid=1 seq=3 len=41 templates+=1 records+=2"]] := by
    decide
  obtain ⟨⟨observed, store⟩, hobserve, hlines⟩ := Option.map_eq_some_iff.mp hlines
  obtain ⟨fbuf, -, hrun⟩ := (receiver_lines (RecencyList (TemplateKey String) OwnedTemplate) .le64 id
    [("[::1]:4739", datagram)] (List.length_replicate ..)).1 observed store hobserve 65536 (by decide)
  exact ⟨_, hrun.trans (by rw [hlines])⟩

end IpfixParser

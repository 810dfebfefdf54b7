import IpfixParser.Proof.Answers
import IpfixParser.Proof.Peers

/-!
# Where templates come from

`Told log st`: the answers so far explain the store. What it has under a key is what was last taken in
under that key, and so came from a datagram of the same session and ODID; a definition that was refused
was refused over such a one. Each insert keeps this with its answer added, and so a whole stream does,
however much the store has dropped on the way.
-/

namespace IpfixParser

open Lib

section answers

variable {K : Type} [DecidableEq K]

theorem lastInserted_concat (key : TemplateKey K) (log : List (Answer K)) (a : Answer K) :
    lastInserted key (log ++ [a]) =
      if a.key = key ∧ a.outcome = .inserted then some (.ofRecord a.record) else lastInserted key log := by
  unfold lastInserted
  rw [List.foldl_append]
  rfl

theorem exists_of_lastInserted {key : TemplateKey K} {log : List (Answer K)} {t : TemplateRef}
    (h : lastInserted key log = some t) : ∃ a ∈ log, a.key = key ∧ .ofRecord a.record = t := by
  induction log using List.reverseRecOn with
  | nil => cases h
  | append_singleton log a ih =>
    rw [lastInserted_concat] at h
    split_ifs at h with ha
    · exact ⟨a, List.mem_append_right _ (List.mem_singleton_self a), ha.1, Option.some.inj h⟩
    · obtain ⟨a', ha', hkey, ht⟩ := ih h
      exact ⟨a', List.mem_append_left _ ha', hkey, ht⟩

/-- An answer has its reason in the answers before it. -/
structure Answer.Justified (log : List (Answer K)) (a : Answer K) : Prop where
  alreadyPresent : a.outcome = .alreadyPresent → lastInserted a.key log = some (.ofRecord a.record)
  collision : a.outcome = .collision → ∃ t, lastInserted a.key log = some t ∧ t ≠ .ofRecord a.record

variable {M : Type} [LruMap M (TemplateKey K) OwnedTemplate]

/-- The answers so far explain the store. -/
structure Told (log : List (Answer K)) (st : SessionTemplateStore M) : Prop extends st.Sound where
  ids : st.table.IdsOk
  stored : ∀ key t, st.lookup key = some t → lastInserted key log = some t
  justified : ∀ pre a post, log = pre ++ a :: post → a.Justified pre

namespace Told

variable [LawfulLruMap M] {log : List (Answer K)} {st : SessionTemplateStore M}

theorem justified_insert (h : Told log st) (s : K) (odid : UInt32) (r : TemplateRecord) :
    Answer.Justified log ⟨(s, odid, r.id), r, (st.insert s odid r).1⟩ := by
  cases hfind : findKey (s, odid, r.id) st.table with
  | none =>
    rw [SessionTemplateStore.insert_of_none hfind]
    exact ⟨fun hout => (nomatch hout), fun hout => (nomatch hout)⟩
  | some t =>
    have hstored := h.stored (s, odid, r.id) t.toRef (by rw [SessionTemplateStore.lookup_eq, hfind]; rfl)
    have hid : t.id = r.id := h.ids _ _ hfind
    rw [SessionTemplateStore.insert_of_some hfind]
    by_cases hagrees : t.Agrees r
    · rw [if_pos hagrees]
      refine ⟨fun _ => ?_, fun hout => (nomatch hout)⟩
      rw [hstored]
      exact congrArg some (TemplateRef.mk.injEq .. ▸ ⟨hid, hagrees.1, hagrees.2⟩)
    · rw [if_neg hagrees]
      refine ⟨fun hout => (nomatch hout), fun _ => ⟨t.toRef, hstored, fun heq => hagrees ?_⟩⟩
      exact ⟨congrArg TemplateRef.scopeFieldCount heq, congrArg TemplateRef.fields heq⟩

theorem insert (h : Told log st) (s : K) (odid : UInt32) {r : TemplateRecord}
    (hr : r.fields.length ≤ 65535) :
    Told (log ++ [⟨(s, odid, r.id), r, (st.insert s odid r).1⟩]) (st.insert s odid r).2.2 := by
  have hstep := SessionTemplateStore.step_table st (.insert s odid r) h.bounded
  refine ⟨h.toSound.insert s odid hr, hstep.idsOk h.ids, fun key t ht => ?_, fun pre a post hlog => ?_⟩
  · rw [lastInserted_concat]
    rcases hstep.origin (SessionTemplateStore.lookup_eq_some_iff.mp ht) with
      ⟨hold, -, hresponse⟩ | ⟨r', hop, hid, hresponse, hof⟩
    · rw [if_neg]
      · exact h.stored key t (SessionTemplateStore.lookup_eq_some_iff.mpr hold)
      · rintro ⟨rfl, hout⟩
        -- an insert under a key that keeps its definition is not taken in
        have hsame : (st.insert s odid r).1 = _ := StoreResponse.outcome.inj (hresponse r rfl rfl)
        have htaken : (st.insert s odid r).1 = .inserted := hout
        rw [htaken] at hsame
        split_ifs at hsame
    · obtain ⟨rfl, rfl⟩ := StoreOp.insert_key hop hid
      rw [if_pos ⟨rfl, StoreResponse.outcome.inj hresponse⟩]
      exact congrArg (Option.map OwnedTemplate.toRef) (congrArg some hof.symm)
  · rcases List.append_eq_append_iff.mp hlog with ⟨c, rfl, hpost⟩ | ⟨c, rfl, hpost⟩
    · cases c with
      | nil =>
        obtain ⟨rfl, -⟩ := List.cons.inj hpost
        rw [List.append_nil]
        exact h.justified_insert s odid r
      | cons a' c => simp at hpost
    · cases c with
      | nil =>
        obtain ⟨rfl, -⟩ := List.cons.inj hpost
        rw [List.append_nil] at h
        exact h.justified_insert s odid r
      | cons a' c =>
        obtain ⟨rfl, -⟩ := List.cons.inj hpost
        exact h.justified pre a c rfl

theorem observeAll {st' : SessionTemplateStore M} (h : Told [] st) {n : Nat} {stream : List (K × Bytes)}
    {observed : List Observed}
    (hobserve : SessionTemplateStore.observeAll n stream st = some (observed, st')) :
    Told (answers stream observed) st' :=
  SessionTemplateStore.observeAll_keeps (fun _ _ h s odid _ hr => h.insert s odid hr) h hobserve

end Told

theorem told_start [LawfulLruMap M] : Told [] (CollectorState.start : CollectorState M).store := by
  have hempty : (CollectorState.start : CollectorState M).store.table = [] :=
    SessionTemplateStore.table_withCapacity defaultCapacity
  refine ⟨sound_start, fun key t ht => ?_, fun key t ht => ?_, fun pre a post hlog => ?_⟩
  · rw [hempty] at ht
    cases ht
  · rw [SessionTemplateStore.lookup_eq, hempty] at ht
    cases ht
  · simp at hlog

end answers

/-! ### The receiver -/

section receiver

variable {P K : Type} [ToString P] [DecidableEq K]

/-- Every definition that comes in has an answer. A template that the receiver ends with under a session,
an ODID and an id is the one last taken in under these; a definition is passed over as a known one or
complained about only over one that was taken in before under its own session, ODID and id. -/
theorem receiver_attribution (M : Type) [LruMap M (TemplateKey K) OwnedTemplate] [LawfulLruMap M]
    (tg : Target) (ip : P → K) (stream : List (P × Bytes)) {fuel : Nat} (hfuel : 65535 < fuel)
    {out : List (List Line)} {st : CollectorState M}
    (h : receiveAll tg fuel ip stream .start = .ok (out, st)) :
    ∃ observed, SessionTemplateStore.observeAll 128 (sessionsOf ip stream) .new = some (observed, st.store) ∧
      out = linesOf stream observed ∧
      (answers (sessionsOf ip stream) observed).map Answer.definition =
        streamDefinitions 128 (sessionsOf ip stream) ∧
      (∀ s odid id t, (st.store.view s).get odid id = some t →
        lastInserted (s, odid, id) (answers (sessionsOf ip stream) observed) = some t) ∧
      ∀ pre a post, answers (sessionsOf ip stream) observed = pre ++ a :: post → a.Justified pre := by
  have hlen : (CollectorState.start : CollectorState M).fbuf.length = 128 := List.length_replicate
  obtain ⟨observed, hobserve, hout⟩ := observed_of_receiveAll sound_start hfuel h
  rw [hlen] at hobserve
  have htold := told_start.observeAll hobserve
  have hdefinitions := SessionTemplateStore.answerAll_definitions
    (streamDefinitions 128 (sessionsOf ip stream)) (CollectorState.start : CollectorState M).store
  rw [SessionTemplateStore.answerAll_streamDefinitions hobserve] at hdefinitions
  exact ⟨observed, hobserve, hout, hdefinitions,
    fun s odid id t ht => htold.stored (s, odid, id) t ht, htold.justified⟩

theorem receiver_attribution_collision :
    let first : Bytes :=
      [0, 10, 0, 28, 0, 0, 0, 0, 0, 0, 0, 0, 0, 0, 0, 1, 0, 2, 0, 12, 1, 0, 0, 1, 0, 8, 0, 4]
    let second : Bytes :=
      [0, 10, 0, 28, 0, 0, 0, 0, 0, 0, 0, 0, 0, 0, 0, 1, 0, 2, 0, 12, 1, 0, 0, 1, 0, 12, 0, 8]
    let stream : List (Nat × Bytes) := [(1, first), (2, second), (1, second)]
    ∃ observed store, SessionTemplateStore.observeAll 128 (sessionsOf id stream)
        (.new : SessionTemplateStore (RecencyList (TemplateKey Nat) OwnedTemplate)) = some (observed, store) ∧
      (answers (sessionsOf id stream) observed).map Answer.outcome = [.inserted, .inserted, .collision] ∧
      ∀ pre a post, answers (sessionsOf id stream) observed = pre ++ a :: post → a.Justified pre := by
  intro first second stream
  have houtcomes : (SessionTemplateStore.observeAll 128 (sessionsOf id stream)
      (.new : SessionTemplateStore (RecencyList (TemplateKey Nat) OwnedTemplate))).map (fun x =>
        (answers (sessionsOf id stream) x.1).map Answer.outcome) =
      some [.inserted, .inserted, .collision] := by
    decide
  obtain ⟨⟨observed, store⟩, hobserve, hanswers⟩ := Option.map_eq_some_iff.mp houtcomes
  obtain ⟨fbuf, -, hreturns⟩ := (receiveAll_eq .le64 id stream sound_start).1 observed store hobserve
    65536 (by decide)
  obtain ⟨observed', hobserve', -, -, -, hjustified⟩ :=
    receiver_attribution _ .le64 id stream (by decide) hreturns
  obtain ⟨rfl, -⟩ := Prod.mk.inj (Option.some.inj (hobserve'.symm.trans hobserve))
  exact ⟨observed', _, hobserve, hanswers, hjustified⟩

end receiver

end IpfixParser

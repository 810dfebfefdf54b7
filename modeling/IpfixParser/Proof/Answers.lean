import IpfixParser.Proof.Journal

/-!
# A stream as its definitions

All that a stream of datagrams does to the store is to bring definitions. The store after the stream, and
its answers, are those of the definitions alone, one after the other (`answerAll_streamDefinitions`); so
what each insert keeps, with its answer added to those before, the stream keeps (`answers_keep`).
-/

namespace IpfixParser

open Lib

variable {K M : Type} [LruMap M (TemplateKey K) OwnedTemplate]

/-- Definitions of a session, each with its key. -/
abbrev keyed (s : K) (odid : UInt32) (defs : List TemplateRecord) : List (TemplateKey K × TemplateRecord) :=
  defs.map fun r => ((s, odid, r.id), r)

/-- The definition that an answer is for. -/
def Answer.definition (a : Answer K) : TemplateKey K × TemplateRecord := (a.key, a.record)

theorem answersIn_ofRecord (s : K) (odid : UInt32) (records : List (Result DataRecord)) :
    answersIn s odid (records.map Seen.ofRecord) = [] := by
  unfold answersIn
  rw [List.filterMap_map, List.filterMap_eq_nil_iff]
  rintro (e | r) - <;> rfl

namespace SessionTemplateStore

variable {s : K} {odid : UInt32} {n : Nat} {st st' : SessionTemplateStore M}

theorem answerAll_append (defs defs' : List (TemplateKey K × TemplateRecord)) (st : SessionTemplateStore M) :
    st.answerAll (defs ++ defs') = ((st.answerAll defs).1 ++ ((st.answerAll defs).2.answerAll defs').1,
      ((st.answerAll defs).2.answerAll defs').2) := by
  induction defs generalizing st with
  | nil => rfl
  | cons x defs ih =>
    simp only [List.cons_append, answerAll, ih]

theorem answerAll_tell (s : K) (odid : UInt32) (kind : TemplateSetKind)
    (items : List (Result TemplateRecord)) (st : SessionTemplateStore M) :
    st.answerAll (keyed s odid (items.filterMap Except.toOption)) =
      (answersIn s odid ((dictionary s).tell odid kind items st).1,
        ((dictionary s).tell odid kind items st).2) := by
  induction items generalizing st with
  | nil => rfl
  | cons item items ih =>
    cases item with
    | ok r =>
      obtain ⟨hanswers, hend⟩ := Prod.ext_iff.mp (ih ((dictionary s).define st odid r).2)
      exact Prod.ext (congrArg (_ :: ·) hanswers) hend
    | error e => exact ih st

theorem answerAll_read {set : Set} {seen : List Seen}
    (hread : (dictionary s).read n odid set st = some (seen, st')) :
    st.answerAll (keyed s odid (set.definitions n)) = (answersIn s odid seen, st') := by
  rcases Dictionary.read_cases hread with
    ⟨kind, hdefs, htell⟩ | ⟨hdefs, rfl, ⟨tid, rfl⟩ | ⟨tid, template, -, -, rfl⟩⟩
  · have hanswers := answerAll_tell s odid kind (templatesIn n kind set.records) st
    rwa [htell, ← hdefs] at hanswers
  · rw [hdefs]
    rfl
  · rw [hdefs, answersIn_ofRecord]
    rfl

theorem answerAll_journal {b : Bytes} {items : List (Result Set)} {seen : List Seen}
    (hframes : Frames setPadding Set.decode b items)
    (hjournal : (dictionary s).journal n odid items st = some (seen, st')) :
    st.answerAll (keyed s odid (definitionsIn n items)) = (answersIn s odid seen, st') := by
  induction hframes generalizing st seen with
  | stop =>
    obtain ⟨rfl, rfl⟩ := Prod.mk.inj (Option.some.inj hjournal)
    rfl
  | @ok b set r items _ _ _ ih =>
    obtain ⟨seen₁, st₁, rest, hread, hrest, rfl⟩ := Dictionary.journal_cons hjournal
    have hcons : definitionsIn n (.ok set :: items) = set.definitions n ++ definitionsIn n items := rfl
    rw [hcons, keyed, List.map_append, answerAll_append, answerAll_read hread]
    simp only [ih hrest]
    unfold answersIn
    rw [List.filterMap_append]
  | err =>
    obtain ⟨rfl, rfl⟩ := Prod.mk.inj (Option.some.inj hjournal)
    rfl

/-- A stream does to the store what its definitions do, and gets their answers. -/
theorem answerAll_streamDefinitions {stream : List (K × Bytes)} {observed : List Observed}
    (hobserve : observeAll n stream st = some (observed, st')) :
    st.answerAll (streamDefinitions n stream) = (answers stream observed, st') := by
  induction stream generalizing st observed with
  | nil =>
    obtain ⟨rfl, rfl⟩ := Prod.mk.inj (Option.some.inj hobserve)
    rfl
  | cons x stream ih =>
    obtain ⟨o, st₁, rest, ho, hrest, rfl⟩ := observeAll_cons hobserve
    have hstream := ih hrest
    have hfirst : st.answerAll (streamDefinitions n [x]) = (Answer.ofDatagram x.1 o, st₁) := by
      unfold streamDefinitions
      rw [List.flatMap_singleton]
      rcases Dictionary.observe_cases ho with
        ⟨e, hdec, rfl, rfl⟩ | ⟨header, payload, seen, hdec, hjournal, rfl⟩
      · rw [hdec]
        rfl
      · rw [hdec]
        exact answerAll_journal (frames_setsIn payload) hjournal
    have hcons : streamDefinitions n (x :: stream) =
        streamDefinitions n [x] ++ streamDefinitions n stream := by
      simp [streamDefinitions]
    rw [hcons, answerAll_append, hfirst, hstream]
    rfl

theorem answerAll_definitions (defs : List (TemplateKey K × TemplateRecord)) (st : SessionTemplateStore M) :
    (st.answerAll defs).1.map Answer.definition = defs := by
  induction defs generalizing st with
  | nil => rfl
  | cons x defs ih => exact congrArg (x :: ·) (ih _)

/-- What each insert keeps, with its answer added to those before. -/
theorem answers_keep {Inv : List (Answer K) → SessionTemplateStore M → Prop} {P : TemplateRecord → Prop}
    (hinsert : ∀ log st, Inv log st → ∀ s odid r, P r →
      Inv (log ++ [⟨(s, odid, r.id), r, (st.insert s odid r).1⟩]) (st.insert s odid r).2.2)
    {defs : List (TemplateKey K × TemplateRecord)} (hdefs : ∀ x ∈ defs, x.1.2.2 = x.2.id ∧ P x.2)
    {log : List (Answer K)} (h : Inv log st) :
    Inv (log ++ (st.answerAll defs).1) (st.answerAll defs).2 := by
  induction defs generalizing log st with
  | nil =>
    rw [answerAll, List.append_nil]
    exact h
  | cons x defs ih =>
    obtain ⟨⟨s, odid, id⟩, r⟩ := x
    obtain ⟨⟨hid, hr⟩, hrest⟩ := List.forall_mem_cons.mp hdefs
    obtain rfl : id = r.id := hid
    have hkeep := ih hrest (hinsert log st h s odid r hr)
    rw [List.append_assoc] at hkeep
    exact hkeep

theorem keyed_of_mem_streamDefinitions {stream : List (K × Bytes)} {x : TemplateKey K × TemplateRecord}
    (h : x ∈ streamDefinitions n stream) : x.1.2.2 = x.2.id ∧ x.2.fields.length ≤ 65535 := by
  obtain ⟨y, -, hx⟩ := List.mem_flatMap.mp h
  split at hx
  · obtain ⟨r, hr, rfl⟩ := List.mem_map.mp hx
    exact ⟨rfl, length_fields_of_mem_definitionsIn hr⟩
  · exact absurd hx List.not_mem_nil

theorem observeAll_keeps {Inv : List (Answer K) → SessionTemplateStore M → Prop}
    (hinsert : ∀ log st, Inv log st → ∀ s odid r, r.fields.length ≤ 65535 →
      Inv (log ++ [⟨(s, odid, r.id), r, (st.insert s odid r).1⟩]) (st.insert s odid r).2.2) (h : Inv [] st)
    {stream : List (K × Bytes)} {observed : List Observed}
    (hobserve : observeAll n stream st = some (observed, st')) : Inv (answers stream observed) st' := by
  have hdefs : ∀ x ∈ streamDefinitions n stream, x.1.2.2 = x.2.id ∧ x.2.fields.length ≤ 65535 :=
    fun x hx => keyed_of_mem_streamDefinitions hx
  have hkeep := answers_keep hinsert hdefs h
  rwa [answerAll_streamDefinitions hobserve] at hkeep

end SessionTemplateStore

end IpfixParser

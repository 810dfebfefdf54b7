import IpfixParser.Proof.Peers

/-!
# When the receiver gets through

The one thing that keeps a collector from getting to the end of a datagram is a data set for a template
whose fields all have length 0 (`SessionTemplateStore.Endless`). On a stream where no such template is
ever defined the receiver prints its lines for every datagram; it does not panic either, whatever the
datagrams are.
-/

namespace IpfixParser

open Lib

namespace Dictionary

variable {T : Type} {d : Dictionary T} {n : Nat} {odid : UInt32}

theorem journal_append (sets : List Set) (items : List (Result Set)) (t : T) :
    d.journal n odid (sets.map .ok ++ items) t = (do
      let (seen, t) ← d.journal n odid (sets.map .ok) t
      let (rest, t) ← d.journal n odid items t
      return (seen ++ rest, t)) := by
  induction sets generalizing t with
  | nil =>
    simp only [List.map_nil, List.nil_append, journal, Option.bind_eq_bind, Option.bind_some]
    cases d.journal n odid items t <;> rfl
  | cons set sets ih =>
    simp only [List.map_cons, List.cons_append, journal, ih, Option.bind_eq_bind]
    cases d.read n odid set t with
    | none => rfl
    | some x =>
      simp only [Option.bind_some]
      cases d.journal n odid (sets.map .ok) x.2 with
      | none => rfl
      | some y =>
        simp only [Option.pure_def, Option.bind_some]
        cases d.journal n odid items y.2 with
        | none => rfl
        | some z => simp

theorem read_eq_none_iff {set : Set} {t : T} :
    d.read n odid set t = none ↔
      ∃ tid template, set.kind = .data tid ∧ d.get t odid tid = some template ∧ template.minSize = 0 := by
  unfold read
  cases set.kind with
  | template => simp
  | optionsTemplate => simp
  | data tid =>
    cases hget : d.get t odid tid with
    | none => simp [hget]
    | some template => simp [hget]

theorem journal_eq_none_iff {items : List (Result Set)} {t : T} :
    d.journal n odid items t = none ↔
      ∃ (pre : List Set) (set : Set) (post : List (Result Set)) (seen : List Seen) (t' : T),
        items = pre.map .ok ++ .ok set :: post ∧
        d.journal n odid (pre.map .ok) t = some (seen, t') ∧ d.read n odid set t' = none := by
  constructor
  · intro h
    induction items generalizing t with
    | nil => cases h
    | cons item items ih =>
      cases item with
      | error e => cases h
      | ok set =>
        cases hread : d.read n odid set t with
        | none => exact ⟨[], set, items, [], t, rfl, rfl, hread⟩
        | some x =>
          obtain ⟨seen₁, t₁⟩ := x
          have hrest : d.journal n odid items t₁ = none := by
            rw [journal, hread] at h
            exact Option.map_eq_none_iff.mp ((Option.map_eq_bind ..).trans h)
          obtain ⟨pre, set', post, seen, t', rfl, hpre, hset'⟩ := ih hrest
          refine ⟨set :: pre, set', post, seen₁ ++ seen, t', rfl, ?_, hset'⟩
          rw [List.map_cons, journal, hread]
          simp only [Option.bind_eq_bind, Option.bind_some, hpre]
          rfl
  · rintro ⟨pre, set, post, seen, t', rfl, hpre, hset⟩
    rw [journal_append, hpre]
    simp [journal, hset]

end Dictionary

variable {P K M : Type} [LruMap M (TemplateKey K) OwnedTemplate]

/-- There is no end to a datagram: with the sets before it, a data set of it finds a template whose
fields all have length 0. -/
def SessionTemplateStore.Endless (n : Nat) (session : K) (datagram : Bytes)
    (st : SessionTemplateStore M) : Prop :=
  ∃ (header : MessageHeader) (payload : Bytes) (pre : List Set) (set : Set) (post : List (Result Set))
    (tid : TemplateId) (t : TemplateRef) (seen : List Seen) (st' : SessionTemplateStore M),
    MessageHeader.decode datagram = .ok (header, payload) ∧
    setsIn payload = pre.map .ok ++ .ok set :: post ∧
    (dictionary session).journal n header.observationDomainId (pre.map .ok) st = some (seen, st') ∧
    set.kind = .data tid ∧ (st'.view session).get header.observationDomainId tid = some t ∧
    ∀ f ∈ t.fields, f.fieldLength = 0

theorem TemplateRef.minSize_eq_zero_iff {t : TemplateRef} :
    t.minSize = 0 ↔ ∀ f ∈ t.fields, f.fieldLength = 0 := by
  have hpos := TemplateRef.minSize_pos_iff (t := t)
  rw [Nat.pos_iff_ne_zero] at hpos
  rw [← not_iff_not, ← ne_eq, hpos]
  push Not
  rfl

namespace SessionTemplateStore

theorem observe_eq_none_iff {n : Nat} {session : K} {datagram : Bytes} {st : SessionTemplateStore M} :
    (dictionary session).observe n datagram st = none ↔ st.Endless n session datagram := by
  unfold Dictionary.observe Endless
  cases hdec : MessageHeader.decode datagram with
  | panic => exact absurd hdec (MessageHeader.decode_ne_panic datagram)
  | err e => simp
  | ok x =>
    obtain ⟨header, payload⟩ := x
    have hnone : ∀ told : Option (List Seen × SessionTemplateStore M),
        (told.bind fun x => some ((.ok (header, x.1) : Observed), x.2)) = none ↔ told = none := by
      intro told
      cases told <;> simp
    apply (hnone _).trans
    rw [Dictionary.journal_eq_none_iff]
    constructor
    · rintro ⟨pre, set, post, seen, st', hsets, hpre, hread⟩
      obtain ⟨tid, t, hkind, hget, hzero⟩ := Dictionary.read_eq_none_iff.mp hread
      exact ⟨header, payload, pre, set, post, tid, t, seen, st', rfl, hsets, hpre, hkind, hget,
        TemplateRef.minSize_eq_zero_iff.mp hzero⟩
    · rintro ⟨header', payload', pre, set, post, tid, t, seen, st', heq, hsets, hpre, hkind, hget, hzero⟩
      obtain ⟨rfl, rfl⟩ := Prod.mk.inj (Outcome.ok.inj heq)
      exact ⟨pre, set, post, seen, st', hsets, hpre, Dictionary.read_eq_none_iff.mpr
        ⟨tid, t, hkind, hget, TemplateRef.minSize_eq_zero_iff.mpr hzero⟩⟩

theorem observeAll_eq_none_iff {n : Nat} {stream : List (K × Bytes)} {st : SessionTemplateStore M} :
    observeAll n stream st = none ↔
      ∃ pre session datagram post observed st', stream = pre ++ (session, datagram) :: post ∧
        observeAll n pre st = some (observed, st') ∧ st'.Endless n session datagram := by
  simp only [← observe_eq_none_iff]
  constructor
  · intro h
    induction stream generalizing st with
    | nil => cases h
    | cons x stream ih =>
      obtain ⟨session, datagram⟩ := x
      cases hobserve : (dictionary session).observe n datagram st with
      | none => exact ⟨[], session, datagram, stream, [], st, rfl, rfl, hobserve⟩
      | some told =>
        obtain ⟨o, st₁⟩ := told
        have hrest : observeAll n stream st₁ = none := by
          rw [observeAll, hobserve] at h
          exact Option.map_eq_none_iff.mp ((Option.map_eq_bind ..).trans h)
        obtain ⟨pre, session', datagram', post, observed, st', rfl, hpre, hend⟩ := ih hrest
        refine ⟨(session, datagram) :: pre, session', datagram', post, o :: observed, st', rfl, ?_, hend⟩
        rw [observeAll, hobserve]
        simp only [Option.bind_eq_bind, Option.bind_some, hpre]
        rfl
  · rintro ⟨pre, session, datagram, post, observed, st', rfl, hpre, hend⟩
    induction pre generalizing st observed with
    | nil =>
      obtain ⟨-, rfl⟩ := Prod.mk.inj (Option.some.inj hpre)
      rw [List.nil_append, observeAll, hend]
      rfl
    | cons x pre ih =>
      obtain ⟨o, st₁, rest, hobserve, hrest, rfl⟩ := SessionTemplateStore.observeAll_cons hpre
      rw [List.cons_append, observeAll, hobserve]
      simp only [Option.bind_eq_bind, Option.bind_some, ih rest hrest, Option.bind_none]

/-! ### Templates with a length -/

/-- A sound store whose templates all have a field with a length. -/
structure Measured (st : SessionTemplateStore M) : Prop extends st.Sound where
  length : ∀ key t, st.lookup key = some t → ∃ f ∈ t.fields, f.fieldLength ≠ 0

section stream

variable [DecidableEq K] [LawfulLruMap M] {n : Nat} {session : K} {st st' : SessionTemplateStore M}

theorem Measured.insert (h : st.Measured) (odid : UInt32) {r : TemplateRecord}
    (hr : r.fields.length ≤ 65535) (hlength : ∃ f ∈ r.fields, f.fieldLength ≠ 0) :
    (st.insert session odid r).2.2.Measured := by
  refine ⟨h.toSound.insert session odid hr, fun key t ht => ?_⟩
  rw [lookup_eq_some_iff] at ht
  rcases (step_table st (.insert session odid r) h.bounded).origin ht with ⟨hold, -⟩ | ⟨r', hop, -, -, hof⟩
  · exact h.length key t (lookup_eq_some_iff.mpr hold)
  · obtain rfl : r = r' := (StoreOp.insert.inj hop).2.2
    obtain ⟨-, -, hfields⟩ := OwnedTemplate.mk.inj hof
    rw [hfields]
    exact hlength

theorem Measured.not_endless (h : st.Measured) {datagram : Bytes}
    (htaught : ∀ r ∈ taught n datagram, ∃ f ∈ r.fields, f.fieldLength ≠ 0) :
    ¬ st.Endless n session datagram := by
  rintro ⟨header, payload, pre, set, post, tid, t, seen, st', hdec, hsets, hpre, -, hget, hzero⟩
  have hdefined : ∀ r ∈ definitionsIn n (pre.map .ok), ∃ f ∈ r.fields, f.fieldLength ≠ 0 := by
    intro r hr
    apply htaught
    rw [taught_of_decode hdec, hsets]
    unfold definitionsIn at hr ⊢
    rw [List.filterMap_append, List.flatMap_append]
    exact List.mem_append_left _ hr
  have hst' : st'.Measured := Dictionary.journal_keeps
    (fun _ ht r hr => ht.insert _ (length_fields_of_mem_definitionsIn hr) (hdefined r hr)) h hpre
  obtain ⟨f, hf, hlength⟩ := hst'.length (session, header.observationDomainId, tid) t hget
  exact hlength (hzero f hf)

/-- There is an end to every stream of templates with a length. -/
theorem Measured.observeAll (h : st.Measured) {stream : List (K × Bytes)}
    (htaught : ∀ x ∈ stream, ∀ r ∈ taught n x.2, ∃ f ∈ r.fields, f.fieldLength ≠ 0) :
    SessionTemplateStore.observeAll n stream st ≠ none := by
  induction stream generalizing st with
  | nil => exact Option.some_ne_none _
  | cons x stream ih =>
    have hx := htaught x (List.mem_cons_self ..)
    rw [SessionTemplateStore.observeAll]
    cases hobserve : (dictionary x.1).observe n x.2 st with
    | none => exact absurd (observe_eq_none_iff.mp hobserve) (h.not_endless hx)
    | some told =>
      obtain ⟨o, st₁⟩ := told
      have hst₁ : st₁.Measured := Dictionary.observe_keeps (fun _ ht odid r hr =>
        ht.insert odid (length_fields_of_mem_taught hr) (hx r hr)) h hobserve
      have hrest := ih hst₁ fun y hy => htaught y (List.mem_cons_of_mem _ hy)
      obtain ⟨⟨rest, st₂⟩, hrest⟩ := Option.ne_none_iff_exists'.mp hrest
      simp [hrest]

end stream

end SessionTemplateStore

/-! ### The receiver -/

section receiver

variable {P K : Type} [ToString P]

theorem length_linesOf {ip : P → K} {n : Nat} {stream : List (P × Bytes)} {observed : List Observed}
    {M : Type} [LruMap M (TemplateKey K) OwnedTemplate] {st st' : SessionTemplateStore M}
    (h : SessionTemplateStore.observeAll n (sessionsOf ip stream) st = some (observed, st')) :
    (linesOf stream observed).length = stream.length := by
  have hlen := SessionTemplateStore.length_observeAll h
  rw [List.length_map] at hlen
  rw [List.length_zipWith, hlen, min_self]

/-- The receiver gets through a stream exactly if it does not come to a data set for a template of
length 0; on a stream that defines no such template it prints its lines for every datagram. -/
theorem receiver_returns [DecidableEq K] (M : Type) [LruMap M (TemplateKey K) OwnedTemplate] [LawfulLruMap M]
    (tg : Target) (ip : P → K) (stream : List (P × Bytes)) :
    ((∃ fuel out, receiveAll tg fuel ip stream (CollectorState.start : CollectorState M) = .ok out) ↔
      ∀ pre session datagram post observed (st : SessionTemplateStore M),
        sessionsOf ip stream = pre ++ (session, datagram) :: post →
        SessionTemplateStore.observeAll 128 pre .new = some (observed, st) →
        ¬ st.Endless 128 session datagram) ∧
    ((∀ x ∈ stream, ∀ r ∈ taught 128 x.2, ∃ f ∈ r.fields, f.fieldLength ≠ 0) →
      ∀ fuel, 65535 < fuel → ∃ out st, out.length = stream.length ∧
        receiveAll tg fuel ip stream (CollectorState.start : CollectorState M) = .ok (out, st)) := by
  have hlen : (CollectorState.start : CollectorState M).fbuf.length = 128 := List.length_replicate
  have hsound := sound_start (M := M) (K := K)
  constructor
  · rw [receiveAll_ok_iff tg ip stream hsound, hlen, ne_eq, SessionTemplateStore.observeAll_eq_none_iff]
    constructor
    · intro hends pre session datagram post observed st hstream hpre hend
      exact hends ⟨pre, session, datagram, post, observed, st, hstream, hpre, hend⟩
    · rintro hends ⟨pre, session, datagram, post, observed, st, hstream, hpre, hend⟩
      exact hends pre session datagram post observed st hstream hpre hend
  · intro htaught fuel hfuel
    have hmeasured : (CollectorState.start : CollectorState M).store.Measured (K := K) := by
      refine ⟨hsound, fun key t ht => ?_⟩
      rw [show (CollectorState.start : CollectorState M).store = .withCapacity defaultCapacity from rfl,
        SessionTemplateStore.lookup_eq, SessionTemplateStore.table_withCapacity] at ht
      cases ht
    have hsessions : ∀ x ∈ sessionsOf ip stream, ∀ r ∈ taught 128 x.2,
        ∃ f ∈ r.fields, f.fieldLength ≠ 0 := by
      intro x hx
      obtain ⟨y, hy, rfl⟩ := List.mem_map.mp hx
      exact htaught y hy
    have hsome := hmeasured.observeAll hsessions
    obtain ⟨⟨observed, store⟩, hobserve⟩ := Option.ne_none_iff_exists'.mp hsome
    obtain ⟨fbuf, -, hreturns⟩ := (receiveAll_eq tg ip stream hsound).1 observed store
      (hlen ▸ hobserve) fuel hfuel
    exact ⟨_, _, length_linesOf hobserve, hreturns⟩

theorem receiver_returns_two_datagrams :
    let datagram : Bytes := [0, 10, 0, 36, 0, 0, 0, 0, 0, 0, 0, 0, 0, 0, 0, 1,
      0, 2, 0, 12, 1, 0, 0, 1, 0, 8, 0, 4, 1, 0, 0, 8, 192, 0, 2, 1]
    let stream : List (Nat × Bytes) := [(1, datagram), (2, datagram.take 30)]
    ∃ out st, out.length = 2 ∧ receiveAll .le64 65536 id stream
      (CollectorState.start : CollectorState (RecencyList (TemplateKey Nat) OwnedTemplate)) =
        .ok (out, st) := by
  intro datagram stream
  exact (receiver_returns (RecencyList (TemplateKey Nat) OwnedTemplate) .le64 id stream).2
    (by decide) 65536 (by decide)

end receiver

end IpfixParser

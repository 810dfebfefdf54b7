import IpfixParser.Proof.Exchange

/-!
# Datagrams that are lost or come again

On its way a datagram can get lost or be delivered twice. When all that it defines was defined before,
as in a datagram that comes again, a datagram changes no `Knowledge` (`Knowledge.observe_eq_self`): the
store holds the same with it and without it, and the receiver prints the same lines for all the others.
-/

namespace IpfixParser

open Lib

/-! ### What a message leaves behind -/

namespace Knowledge

variable {k k' : Knowledge} {odid : UInt32} {r : TemplateRecord} {defs : List TemplateRecord}

theorem isSome_define {odid' : UInt32} {id : TemplateId}
    (h : (k odid' id).isSome ∨ odid' = odid ∧ id = r.id) : ((k.define odid r).2 odid' id).isSome := by
  unfold define
  cases hk : k odid r.id with
  | none =>
    simp only
    split_ifs with hkey
    · rfl
    · exact h.resolve_right hkey
  | some t =>
    have hsome : (k odid' id).isSome := by
      rcases h with h | ⟨rfl, rfl⟩
      · exact h
      · rw [hk]
        rfl
    simp only
    split_ifs <;> exact hsome

theorem define_eq_self (h : (k odid r.id).isSome) : (k.define odid r).2 = k := by
  obtain ⟨t, ht⟩ := Option.isSome_iff_exists.mp h
  unfold define
  rw [ht]
  simp only
  split_ifs <;> rfl

theorem isSome_learn {odid' : UInt32} {id : TemplateId}
    (h : (k odid' id).isSome ∨ odid' = odid ∧ ∃ r ∈ defs, id = r.id) :
    (k.learn odid defs odid' id).isSome := by
  induction defs generalizing k with
  | nil =>
    rcases h with h | ⟨-, r, hr, -⟩
    · exact h
    · exact absurd hr List.not_mem_nil
  | cons r₀ defs ih =>
    apply ih
    rcases h with h | ⟨rfl, r, hr, rfl⟩
    · exact .inl (isSome_define (.inl h))
    · rcases List.mem_cons.mp hr with rfl | hr
      · exact .inl (isSome_define (.inr ⟨rfl, rfl⟩))
      · exact .inr ⟨rfl, r, hr, rfl⟩

theorem learn_eq_self (h : ∀ r ∈ defs, (k odid r.id).isSome) : k.learn odid defs = k := by
  induction defs with
  | nil => rfl
  | cons r defs ih =>
    show ((k.define odid r).2).learn odid defs = k
    rw [define_eq_self (h r (List.mem_cons_self ..))]
    exact ih fun r' hr' => h r' (List.mem_cons_of_mem _ hr')

variable {K : Type} {s : K} {n : Nat} {datagram : Bytes} {o : Observed}

theorem observe_learn (h : dictionary.observe n datagram k = some (o, k')) :
    (∃ header payload, MessageHeader.decode datagram = .ok (header, payload) ∧
      k' = k.learn header.observationDomainId (definitionsIn n (setsIn payload))) ∨
    k' = k ∧ ∀ header payload, MessageHeader.decode datagram ≠ .ok (header, payload) := by
  rcases Dictionary.observe_cases h with ⟨e, hdec, -, rfl⟩ | ⟨header, payload, seen, hdec, hjournal, -⟩
  · exact .inr ⟨rfl, fun _ _ hok => nomatch hdec.symm.trans hok⟩
  · exact .inl ⟨header, payload, hdec, Dictionary.journal_after (frames_setsIn payload) hjournal⟩

theorem mem_taughtKeys {header : MessageHeader} {payload : Bytes}
    (hdec : MessageHeader.decode datagram = .ok (header, payload)) {key : TemplateKey K} :
    key ∈ taughtKeys n s datagram ↔ key.1 = s ∧ key.2.1 = header.observationDomainId ∧
      ∃ r ∈ definitionsIn n (setsIn payload), key.2.2 = r.id := by
  unfold taughtKeys
  rw [hdec]
  simp only [List.mem_map]
  constructor
  · rintro ⟨r, hr, rfl⟩
    exact ⟨rfl, rfl, r, hr, rfl⟩
  · obtain ⟨s', odid', id⟩ := key
    rintro ⟨rfl, rfl, r, hr, rfl⟩
    exact ⟨r, hr, rfl⟩

theorem isSome_observe (h : dictionary.observe n datagram k = some (o, k')) {odid : UInt32}
    {id : TemplateId} (hknown : (k odid id).isSome ∨ (s, odid, id) ∈ taughtKeys n s datagram) :
    (k' odid id).isSome := by
  rcases observe_learn h with ⟨header, payload, hdec, rfl⟩ | ⟨rfl, hdec⟩
  · apply isSome_learn
    rw [mem_taughtKeys hdec] at hknown
    exact hknown.imp_right fun hkey => hkey.2
  · apply hknown.resolve_right
    intro hkey
    unfold taughtKeys at hkey
    split at hkey
    · exact absurd ‹_› (hdec _ _)
    · exact absurd hkey List.not_mem_nil

/-- A datagram with definitions for known keys only teaches nothing. -/
theorem observe_eq_self (h : dictionary.observe n datagram k = some (o, k'))
    (hknown : ∀ key ∈ taughtKeys n s datagram, (k key.2.1 key.2.2).isSome) : k' = k := by
  rcases observe_learn h with ⟨header, payload, hdec, rfl⟩ | ⟨rfl, -⟩
  · apply learn_eq_self
    intro r hr
    exact hknown (s, header.observationDomainId, r.id) ((mem_taughtKeys hdec).mpr ⟨rfl, rfl, r, hr, rfl⟩)
  · rfl

end Knowledge

/-! ### Two streams -/

section receiver

variable {P K M : Type} [DecidableEq K] [LruMap M (TemplateKey K) OwnedTemplate] [LawfulLruMap M]

/-- A definition is known for each of the keys. -/
def Knows (known : K → Knowledge) (keys : List (TemplateKey K)) : Prop :=
  ∀ key ∈ keys, (known key.1 key.2.1 key.2.2).isSome

namespace SessionTemplateStore

variable {keys : List (TemplateKey K)} {known : K → Knowledge} {st st' : SessionTemplateStore M}

theorem Holds.observe_same (h : st.Holds keys known) (h' : st'.Holds keys known) {n : Nat} {s : K}
    {datagram : Bytes} (hkeys : taughtKeys n s datagram ⊆ keys) {o : Observed}
    {st₁ : SessionTemplateStore M} (hobserve : (dictionary s).observe n datagram st = some (o, st₁)) :
    ∃ st₁', (dictionary s).observe n datagram st' = some (o, st₁') ∧
      ∃ k, Knowledge.dictionary.observe n datagram (known s) = some (o, k) ∧
        st₁.Holds keys (Function.update known s k) ∧ st₁'.Holds keys (Function.update known s k) := by
  obtain ⟨k, hknown, hholds⟩ := h.observe_some hkeys hobserve
  obtain ⟨st₁', hobserve', hholds'⟩ := h'.observe_of_known hkeys hknown
  exact ⟨st₁', hobserve', k, hknown, hholds, hholds'⟩

end SessionTemplateStore

theorem Knows.update {known : K → Knowledge} {seen : List (TemplateKey K)} (h : Knows known seen) {n : Nat}
    {s : K} {datagram : Bytes} {o : Observed} {k : Knowledge}
    (hobserve : Knowledge.dictionary.observe n datagram (known s) = some (o, k)) :
    Knows (Function.update known s k) (seen ++ taughtKeys n s datagram) := by
  rintro ⟨s', odid, id⟩ hkey
  simp only
  by_cases hs : s' = s
  · subst hs
    rw [Function.update_self]
    apply Knowledge.isSome_observe (s := s') hobserve
    exact (List.mem_append.mp hkey).imp_left (h (s', odid, id))
  · rw [Function.update_of_ne hs]
    refine h (s', odid, id) ((List.mem_append.mp hkey).resolve_right fun hmem => ?_)
    unfold taughtKeys at hmem
    split at hmem
    · obtain ⟨r, -, heq⟩ := List.mem_map.mp hmem
      exact hs (Prod.mk.inj heq).1.symm
    · exact absurd hmem List.not_mem_nil

/-- The datagrams marked `false` define nothing that was not defined before. -/
def Spares (n : Nat) (ip : P → K) (seen : List (TemplateKey K)) (stream : List ((P × Bytes) × Bool)) : Prop :=
  ∀ pre x post, stream = pre ++ (x, false) :: post →
    taughtKeys n (ip x.1) x.2 ⊆ seen ++ streamKeys n (sessionsOf ip (pre.map Prod.fst))

/-- The datagrams of a stream that are not marked `false`. -/
abbrev kept (stream : List ((P × Bytes) × Bool)) : List (P × Bytes) :=
  (stream.filter Prod.snd).map Prod.fst

/-- Of a list with an entry for each datagram, the entries of those. -/
abbrev keptEntries {α : Type} (stream : List ((P × Bytes) × Bool)) (entries : List α) : List α :=
  ((stream.zip entries).filter fun y => y.1.2).map Prod.snd

omit [DecidableEq K] in
theorem Spares.tail {n : Nat} {ip : P → K} {seen : List (TemplateKey K)} {y : (P × Bytes) × Bool}
    {stream : List ((P × Bytes) × Bool)} (h : Spares n ip seen (y :: stream)) :
    Spares n ip (seen ++ taughtKeys n (ip y.1.1) y.1.2) stream := by
  rintro pre x post rfl
  have hsub := h (y :: pre) x post rfl
  rw [List.append_assoc]
  exact hsub

theorem SessionTemplateStore.Holds.spares {n : Nat} {ip : P → K} {keys seen : List (TemplateKey K)}
    {stream : List ((P × Bytes) × Bool)} {known : K → Knowledge} {st st' st₁ : SessionTemplateStore M}
    (h : st.Holds keys known) (h' : st'.Holds keys known)
    (hkeys : streamKeys n (sessionsOf ip (stream.map Prod.fst)) ⊆ keys) (hknows : Knows known seen)
    (hspares : Spares n ip seen stream) {observed : List Observed}
    (hobserve : SessionTemplateStore.observeAll n (sessionsOf ip (stream.map Prod.fst)) st =
      some (observed, st₁)) :
    ∃ st₁' : SessionTemplateStore M, SessionTemplateStore.observeAll n (sessionsOf ip (kept stream)) st' =
        some (keptEntries stream observed, st₁') ∧
      ∃ known', st₁.Holds keys known' ∧ st₁'.Holds keys known' := by
  induction stream generalizing st st' known seen observed with
  | nil =>
    obtain ⟨rfl, rfl⟩ := Prod.mk.inj (Option.some.inj hobserve)
    exact ⟨st', rfl, known, h, h'⟩
  | cons y stream ih =>
    obtain ⟨⟨peer, datagram⟩, keep⟩ := y
    obtain ⟨o, st₂, rest, hfirst, hrest, rfl⟩ := SessionTemplateStore.observeAll_cons hobserve
    have hfirstKeys : taughtKeys n (ip peer) datagram ⊆ keys := fun key hkey =>
      hkeys (List.mem_append_left _ hkey)
    have hrestKeys : streamKeys n (sessionsOf ip (stream.map Prod.fst)) ⊆ keys := fun key hkey =>
      hkeys (List.mem_append_right _ hkey)
    obtain ⟨st₂', hfirst', k, hk, hholds, hholds'⟩ := h.observe_same h' hfirstKeys hfirst
    have hknows' := hknows.update hk
    cases keep with
    | true =>
      obtain ⟨st₁', hrest', hend⟩ := ih hholds hholds' hrestKeys hknows' hspares.tail hrest
      refine ⟨st₁', ?_, hend⟩
      simp only [kept, keptEntries, sessionsOf, List.filter_cons, List.zip_cons_cons, if_true,
        List.map_cons, SessionTemplateStore.observeAll] at hrest' ⊢
      rw [hfirst']
      simp only [Option.bind_eq_bind, Option.bind_some, hrest']
      rfl
    | false =>
      -- nothing is learned, so the store without the datagram holds the same still
      have hfamiliar := hspares [] (peer, datagram) stream rfl
      have hsame : k = known (ip peer) := by
        apply Knowledge.observe_eq_self (s := ip peer) hk
        intro key hkey
        have hsession : key.1 = ip peer := by
          unfold taughtKeys at hkey
          split at hkey
          · obtain ⟨r, -, rfl⟩ := List.mem_map.mp hkey
            rfl
          · exact absurd hkey List.not_mem_nil
        rw [← hsession]
        apply hknows
        simpa [streamKeys] using hfamiliar hkey
      rw [hsame, Function.update_eq_self] at hholds hknows'
      obtain ⟨st₁', hrest', hend⟩ := ih hholds h' hrestKeys hknows' hspares.tail hrest
      refine ⟨st₁', ?_, hend⟩
      simp only [kept, keptEntries, List.filter_cons, List.zip_cons_cons, if_false,
        Bool.false_eq_true] at hrest' ⊢
      exact hrest'

theorem linesOf_kept [ToString P] (stream : List ((P × Bytes) × Bool)) (observed : List Observed) :
    linesOf (kept stream) (keptEntries stream observed) =
      keptEntries stream (linesOf (stream.map Prod.fst) observed) := by
  induction stream generalizing observed with
  | nil => rfl
  | cons y stream ih =>
    obtain ⟨x, keep⟩ := y
    cases observed with
    | nil => simp
    | cons o observed =>
      have hrest := ih observed
      cases keep with
      | true =>
        simp only [kept, keptEntries, linesOf, List.filter_cons, List.zip_cons_cons, if_true, List.map_cons,
          List.zipWith_cons_cons] at hrest ⊢
        rw [hrest]
      | false =>
        simp only [kept, keptEntries, linesOf, List.filter_cons, List.zip_cons_cons, if_false,
          Bool.false_eq_true, List.map_cons, List.zipWith_cons_cons] at hrest ⊢
        rw [hrest]

/-- While there is room for every template, datagrams that define nothing that was not defined before
can all get lost: what is printed for the others is the same, and so is every template. As such
datagrams, those that come again can come any number of times. -/
theorem receiver_redelivery [ToString P] (M : Type) [LruMap M (TemplateKey K) OwnedTemplate]
    [LawfulLruMap M] (tg : Target) (ip : P → K) (stream : List ((P × Bytes) × Bool))
    (hroom : (streamKeys 128 (sessionsOf ip (stream.map Prod.fst))).dedup.length ≤ 4096)
    (hspares : ∀ pre x post, stream = pre ++ (x, false) :: post →
      taughtKeys 128 (ip x.1) x.2 ⊆ streamKeys 128 (sessionsOf ip (pre.map Prod.fst)))
    {fuel : Nat} (hfuel : 65535 < fuel) {out : List (List Line)} {st : CollectorState M}
    (hout : receiveAll tg fuel ip (stream.map Prod.fst) .start = .ok (out, st)) :
    ∃ st' : CollectorState M,
      receiveAll tg fuel ip ((stream.filter Prod.snd).map Prod.fst) .start =
        .ok (((stream.zip out).filter fun y => y.1.2).map Prod.snd, st') ∧
      ∀ s odid id, (st'.store.view s).get odid id = (st.store.view s).get odid id := by
  have hlen : (CollectorState.start : CollectorState M).fbuf.length = 128 := List.length_replicate
  have hsound := sound_start (M := M) (K := K)
  have hholds := holds_start (M := M) hroom
  obtain ⟨observed, hobserve, rfl⟩ := observed_of_receiveAll hsound hfuel hout
  rw [hlen] at hobserve
  have hknows : Knows (fun _ => Knowledge.empty) ([] : List (TemplateKey K)) :=
    fun key hkey => absurd hkey List.not_mem_nil
  obtain ⟨store, hkept, known, hall, hsome⟩ := hholds.spares hholds (List.Subset.refl _) hknows
    (fun pre x post hstream => by simpa using hspares pre x post hstream) hobserve
  rw [← hlen] at hkept
  obtain ⟨fbuf, -, hreturns⟩ := (receiveAll_eq tg ip _ hsound).1 _ store hkept fuel hfuel
  rw [linesOf_kept] at hreturns
  refine ⟨⟨store, fbuf⟩, hreturns, fun s odid id => ?_⟩
  rw [hall.known, hsome.known]

theorem receiver_redelivery_template :
    let template : Bytes :=
      [0, 10, 0, 28, 0, 0, 0, 0, 0, 0, 0, 0, 0, 0, 0, 1, 0, 2, 0, 12, 1, 0, 0, 1, 0, 8, 0, 4]
    let data : Bytes := [0, 10, 0, 24, 0, 0, 0, 0, 0, 0, 0, 1, 0, 0, 0, 1, 1, 0, 0, 8, 192, 0, 2, 1]
    ∃ st, receiveAll .le64 65536 id [(1, template), (1, data), (1, data)]
        (.start : CollectorState (RecencyList (TemplateKey Nat) OwnedTemplate)) =
      .ok ([[.stdout "1 odid=1 seq=0 len=28 templates+=1 records+=0"],
        [.stdout "1 odid=1 seq=1 len=24 templates+=0 records+=1"],
        [.stdout "1 odid=1 seq=1 len=24 templates+=0 records+=1"]], st) := by
  intro template data
  let stream : List ((Nat × Bytes) × Bool) :=
    [((1, template), true), ((1, data), true), ((1, template), false), ((1, data), true)]
  have hlines : (SessionTemplateStore.observeAll 128 (sessionsOf id (stream.map Prod.fst))
      (.new : SessionTemplateStore (RecencyList (TemplateKey Nat) OwnedTemplate))).map (fun x =>
        keptEntries stream (linesOf (stream.map Prod.fst) x.1)) =
      some [[.stdout "1 odid=1 seq=0 len=28 templates+=1 records+=0"],
        [.stdout "1 odid=1 seq=1 len=24 templates+=0 records+=1"],
        [.stdout "1 odid=1 seq=1 len=24 templates+=0 records+=1"]] := by
    decide
  obtain ⟨⟨observed, store⟩, hobserve, hkept⟩ := Option.map_eq_some_iff.mp hlines
  obtain ⟨fbuf, -, hreturns⟩ := (receiveAll_eq .le64 id (stream.map Prod.fst) sound_start).1 observed
    store hobserve 65536 (by decide)
  have hspares : ∀ pre x post, stream = pre ++ (x, false) :: post →
      taughtKeys 128 (id x.1) x.2 ⊆ streamKeys 128 (sessionsOf id (pre.map Prod.fst)) := by
    rintro (_ | ⟨a, _ | ⟨b, _ | ⟨c, _ | ⟨d, _ | ⟨e, pre⟩⟩⟩⟩⟩) x post hstream <;>
      simp only [stream, List.nil_append, List.cons_append, List.cons.injEq, Prod.mk.injEq,
        Bool.true_eq_false, and_false, false_and, reduceCtorEq] at hstream
    obtain ⟨rfl, rfl, ⟨rfl, -⟩, -⟩ := hstream
    decide
  obtain ⟨st', hrun, -⟩ := receiver_redelivery _ .le64 id stream (by decide) hspares (by decide) hreturns
  exact ⟨st', hrun.trans (by rw [← hkept])⟩

end receiver

end IpfixParser

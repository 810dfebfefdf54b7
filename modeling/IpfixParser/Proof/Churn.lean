import IpfixParser.Proof.Exchange
import IpfixParser.Proof.Retention

/-!
# Exporters that refresh their templates

No store has room for the templates of all exporters for ever. But a template stays while it is defined
again before 4096 others are, so exporters that refresh their templates lose no record, however many
templates come and go (`receiver_refreshed`). `Clear` is what is known of the store on the way: nothing has
been refused, and what is stored are the definitions that came last.
-/

namespace IpfixParser

open Lib

variable {K M : Type} [DecidableEq K] [LruMap M (TemplateKey K) OwnedTemplate]

/-- No key has two definitions. -/
def Consistent (defs : List (TemplateKey K × TemplateRecord)) : Prop :=
  ∀ x ∈ defs, ∀ y ∈ defs, x.1 = y.1 → x = y

omit [DecidableEq K] in
theorem Consistent.left {defs defs' : List (TemplateKey K × TemplateRecord)}
    (h : Consistent (defs ++ defs')) : Consistent defs := fun x hx y hy =>
  h x (List.mem_append_left _ hx) y (List.mem_append_left _ hy)

/-- The store has been given these definitions, and has refused none. -/
def Clear (defs : List (TemplateKey K × TemplateRecord)) (st : SessionTemplateStore M) : Prop :=
  ∃ log, Told log st ∧ Windowed 4096 log st ∧ log.map Answer.definition = defs ∧
    ∀ a ∈ log, a.outcome ≠ .collision

namespace Clear

variable [LawfulLruMap M] {defs : List (TemplateKey K × TemplateRecord)} {st : SessionTemplateStore M}
  {s : K} {odid : UInt32} {r : TemplateRecord}

theorem define (h : Clear defs st) (hdefs : Consistent (defs ++ [((s, odid, r.id), r)]))
    (hr : r.fields.length ≤ 65535) : (st.insert s odid r).1 ≠ .collision ∧
      Clear (defs ++ [((s, odid, r.id), r)]) (st.insert s odid r).2.2 := by
  obtain ⟨log, htold, hwindow, rfl, haccepted⟩ := h
  have hnot : (st.insert s odid r).1 ≠ .collision := by
    intro hcollision
    obtain ⟨t, hlast, hne⟩ := (htold.justified_insert s odid r).collision hcollision
    obtain ⟨a, ha, hkey, rfl⟩ := exists_of_lastInserted hlast
    have hsame := hdefs a.definition (List.mem_append_left _ (List.mem_map_of_mem ha)) ((s, odid, r.id), r)
      (List.mem_append_right _ (List.mem_singleton_self _)) hkey
    exact hne (congrArg TemplateRef.ofRecord (Prod.mk.inj hsame).2)
  refine ⟨hnot, log ++ [⟨(s, odid, r.id), r, (st.insert s odid r).1⟩], htold.insert s odid hr,
    hwindow.insert s odid r, List.map_append, fun a ha => ?_⟩
  rcases List.mem_append.mp ha with ha | ha
  · exact haccepted a ha
  · rw [List.mem_singleton.mp ha]
    exact hnot

theorem takes {rs : List TemplateRecord} (h : Clear defs st) (hdefs : Consistent (defs ++ keyed s odid rs))
    (hrs : ∀ r ∈ rs, r.fields.length ≤ 65535) : (SessionTemplateStore.dictionary s).Takes odid rs st ∧
      Clear (defs ++ keyed s odid rs) ((SessionTemplateStore.dictionary s).after odid rs st) := by
  induction rs generalizing defs st with
  | nil => exact ⟨trivial, by rwa [keyed, List.map_nil, List.append_nil]⟩
  | cons r rs ih =>
    rw [keyed, List.map_cons, List.append_cons] at hdefs ⊢
    obtain ⟨hr, hrest⟩ := List.forall_mem_cons.mp hrs
    obtain ⟨hnot, hclear⟩ := h.define hdefs.left hr
    obtain ⟨htakes, hend⟩ := ih hclear hdefs hrest
    exact ⟨⟨hnot, htakes⟩, hend⟩

theorem lookup_eq_some_iff (h : Clear defs st) (hdefs : Consistent defs) (key : TemplateKey K)
    (t : TemplateRef) :
    st.lookup key = some t ↔ ∃ r, (key, r) ∈ (recency defs).take 4096 ∧ .ofRecord r = t := by
  obtain ⟨log, htold, hwindow, rfl, haccepted⟩ := h
  have hkeys : (st.lookup key).isSome ↔ ∃ r, (key, r) ∈ (recency (log.map Answer.definition)).take 4096 := by
    have hall : acceptedKeys log = (log.map Answer.definition).map Prod.fst := by
      rw [List.map_map]
      exact acceptedKeys_of_accepted haccepted
    have hfst := map_recency (f := Prod.fst) hdefs
    rw [← SessionTemplateStore.mem_keys_iff, hwindow.keys, hall, ← hfst, ← List.map_take, List.mem_map]
    exact ⟨fun ⟨x, hx, hkey⟩ => ⟨x.2, hkey ▸ hx⟩, fun ⟨r, hr⟩ => ⟨_, hr, rfl⟩⟩
  have hrecord : ∀ {t r}, st.lookup key = some t →
      (key, r) ∈ (recency (log.map Answer.definition)).take 4096 → .ofRecord r = t := by
    intro t r ht hr
    obtain ⟨a, ha, rfl, rfl⟩ := exists_of_lastInserted (htold.stored key t ht)
    have hmem := mem_recency.mp (List.mem_of_mem_take hr)
    have hsame := hdefs _ hmem a.definition (List.mem_map_of_mem ha) rfl
    exact congrArg TemplateRef.ofRecord (Prod.mk.inj hsame).2
  constructor
  · intro ht
    obtain ⟨r, hr⟩ := hkeys.mp (by rw [ht]; rfl)
    exact ⟨r, hr, hrecord ht hr⟩
  · rintro ⟨r, hr, rfl⟩
    obtain ⟨t, ht⟩ := Option.isSome_iff_exists.mp (hkeys.mpr ⟨r, hr⟩)
    rw [ht, hrecord ht hr]

end Clear

/-! ### Messages -/

/-- A message that brings every data set while its template is among the 4096 that were defined last, by
then. -/
structure ExportedMessage.Refreshed (n : Nat) (s : K) (defs : List (TemplateKey K × TemplateRecord))
    (msg : ExportedMessage) : Prop where
  valid : msg.Valid n
  templates : ∀ pre t records pad post, msg.sets = pre ++ .data t records pad :: post →
    ∃ r, ((s, msg.observationDomainId, r.id), r) ∈ (recency (defs ++
      keyed s msg.observationDomainId (pre.flatMap ExportedSet.definitions))).take 4096 ∧ .ofRecord r = t

/-- The definitions in a message. -/
abbrev ExportedMessage.keyed (s : K) (msg : ExportedMessage) : List (TemplateKey K × TemplateRecord) :=
  IpfixParser.keyed s msg.observationDomainId msg.definitions

/-- Messages of exporters that refresh their templates, after the definitions `defs`. -/
def Refreshes (n : Nat) : List (TemplateKey K × TemplateRecord) → List (K × ExportedMessage) → Prop
  | _, [] => True
  | defs, (s, msg) :: stream => msg.Refreshed n s defs ∧ Refreshes n (defs ++ msg.keyed s) stream

/-- The definitions in a stream. -/
def sentDefinitions (stream : List (K × ExportedMessage)) : List (TemplateKey K × TemplateRecord) :=
  stream.flatMap fun x => x.2.keyed x.1

theorem ExportedMessage.Valid.length_fields {n : Nat} {msg : ExportedMessage} (h : msg.Valid n) :
    ∀ r ∈ msg.definitions, r.fields.length ≤ 65535 := by
  intro r hr
  obtain ⟨set, hset, hr⟩ := List.mem_flatMap.mp hr
  have hvalid := h.sets set hset
  cases set with
  | templates kind records pad => exact (hvalid.1 r hr).header.u16
  | data t records pad => exact absurd hr List.not_mem_nil

namespace Clear

variable [LawfulLruMap M] {defs : List (TemplateKey K × TemplateRecord)} {st : SessionTemplateStore M}

theorem observe (h : Clear defs st) {n : Nat} {s : K} {msg : ExportedMessage} (hmsg : msg.Refreshed n s defs)
    (hdefs : Consistent (defs ++ msg.keyed s)) : ∃ seen st',
      (SessionTemplateStore.dictionary s).observe n msg.encode st = some (.ok (msg.header, seen), st') ∧
      Clean msg.definitions msg.dataRecords seen ∧ Clear (defs ++ msg.keyed s) st' := by
  obtain ⟨htakes, hclear⟩ := h.takes hdefs hmsg.valid.length_fields
  obtain ⟨seen, hobserve, hclean⟩ := ExportedMessage.observe_encode hmsg.valid htakes (by
    intro pre set post heq
    cases set with
    | templates kind records pad => trivial
    | data t records pad =>
      obtain ⟨r, hr, rfl⟩ := hmsg.templates pre t records pad post heq
      have hsplit : msg.definitions = pre.flatMap ExportedSet.definitions ++
          post.flatMap ExportedSet.definitions := by
        rw [ExportedMessage.definitions, heq, List.flatMap_append, List.flatMap_cons]
        rfl
      have hbefore : Consistent (defs ++ keyed s msg.observationDomainId
          (pre.flatMap ExportedSet.definitions)) := by
        rw [ExportedMessage.keyed, hsplit, keyed, List.map_append, ← List.append_assoc] at hdefs
        exact hdefs.left
      have hfields : ∀ r ∈ pre.flatMap ExportedSet.definitions, r.fields.length ≤ 65535 := fun r hr =>
        hmsg.valid.length_fields r (by rw [hsplit]; exact List.mem_append_left _ hr)
      exact ((h.takes hbefore hfields).2.lookup_eq_some_iff hbefore _ _).mpr ⟨r, hr, rfl⟩)
  exact ⟨seen, _, hobserve, hclean, hclear⟩

theorem observeAll {n : Nat} {stream : List (K × ExportedMessage)} (h : Clear defs st)
    (hrefreshes : Refreshes n defs stream) (hdefs : Consistent (defs ++ sentDefinitions stream)) :
    ∃ observed st', SessionTemplateStore.observeAll n (sent stream) st = some (observed, st') ∧
      List.Forall₂ (fun x o => x.2.SeenAs o) stream observed ∧
      Clear (defs ++ sentDefinitions stream) st' := by
  induction stream generalizing defs st with
  | nil => exact ⟨[], st, rfl, .nil, by rwa [sentDefinitions, List.flatMap_nil, List.append_nil]⟩
  | cons x stream ih =>
    obtain ⟨s, msg⟩ := x
    have hcons : sentDefinitions ((s, msg) :: stream) = msg.keyed s ++ sentDefinitions stream := rfl
    rw [hcons, ← List.append_assoc] at hdefs ⊢
    obtain ⟨seen, st₁, hobserve, hclean, hclear⟩ := h.observe hrefreshes.1 hdefs.left
    obtain ⟨observed, st₂, hall, hseen, hend⟩ := ih hclear hrefreshes.2 hdefs
    refine ⟨_ :: observed, st₂, ?_, .cons ⟨seen, rfl, hclean⟩ hseen, hend⟩
    rw [sent, List.map_cons, SessionTemplateStore.observeAll, hobserve]
    simp only [Option.bind_eq_bind, Option.bind_some]
    rw [hall]
    rfl

end Clear

/-! ### The receiver -/

/-- Messages of any number of exporters that refresh their templates, mixed in any way: the receiver prints
one line for each, with all of its templates and all of its records counted, and no complaint, also when
it has room for a part of the templates only. It ends with those that were defined last, up to 4096. -/
theorem receiver_refreshed {P : Type} [ToString P] (M : Type) [LruMap M (TemplateKey K) OwnedTemplate]
    [LawfulLruMap M] (tg : Target) (ip : P → K) (stream : List (P × ExportedMessage))
    (hrefreshes : Refreshes 128 [] (stream.map fun x => (ip x.1, x.2)))
    (hdefs : Consistent (sentDefinitions (stream.map fun x => (ip x.1, x.2)))) {fuel : Nat}
    (hfuel : 65535 < fuel) :
    ∃ st, receiveAll tg fuel ip (sent stream) (.start : CollectorState M) =
        .ok (stream.map fun x => [x.2.line x.1], st) ∧
      ∀ s odid id t, (st.store.view s).get odid id = some t ↔ ∃ r, ((s, odid, id), r) ∈
        (recency (sentDefinitions (stream.map fun x => (ip x.1, x.2)))).take 4096 ∧ .ofRecord r = t := by
  have hstart : Clear [] (CollectorState.start : CollectorState M).store :=
    ⟨[], told_start, windowed_start, rfl, fun a ha => absurd ha List.not_mem_nil⟩
  obtain ⟨observed, store, hobserve, hseen, hclear⟩ := hstart.observeAll hrefreshes hdefs
  obtain ⟨fbuf, hreturns⟩ := receiveAll_of_seenAs tg ip hobserve hseen hfuel
  exact ⟨⟨store, fbuf⟩, hreturns, fun s odid id t => hclear.lookup_eq_some_iff hdefs (s, odid, id) t⟩

theorem receiver_refreshed_two_peers :
    let t : TemplateRecord := ⟨256, 0, [⟨8, none, 4⟩]⟩
    let template : ExportedMessage := ⟨0, 0, 1, [.templates .template [t] []]⟩
    let data : ExportedMessage := ⟨0, 0, 1, [.data (.ofRecord t) [[.fixed [10, 0, 0, 1]]] []]⟩
    let stream : List ((Nat × Nat) × ExportedMessage) :=
      [((1, 4739), template), ((2, 4739), template), ((1, 4740), data)]
    ∃ st, receiveAll .le64 65536 Prod.fst (sent stream)
        (.start : CollectorState (RecencyList (TemplateKey Nat) OwnedTemplate)) =
        .ok (stream.map fun x => [x.2.line x.1], st) ∧
      (st.store.view 1).get 1 256 = some (.ofRecord t) := by
  intro t template data stream
  have ht : TemplateSetKind.template.Valid 128 t :=
    ⟨⟨by decide, by decide, by decide, rfl⟩, by simp [t, FieldSpecifier.WellFormed]⟩
  have htemplate : ∀ s defs, template.Refreshed (K := Nat) 128 s defs := by
    intro s defs
    refine ⟨⟨?_, by decide, by simp [template, ExportedMessage.definitions, ExportedSet.definitions]⟩, ?_⟩
    · simp only [template, List.mem_singleton, forall_eq]
      exact ⟨by simpa using ht, by decide⟩
    · rintro (_ | ⟨set, pre⟩) t' records pad post heq <;> simp [template] at heq
  have hdata : data.Refreshed 128 1 [((1, 1, 256), t), ((2, 1, 256), t)] := by
    refine ⟨⟨?_, by decide, fun r hr => absurd hr List.not_mem_nil⟩, ?_⟩
    · simp only [data, List.mem_singleton, forall_eq]
      refine ⟨by decide, by decide, ⟨⟨8, none, 4⟩, by decide⟩, ?_, by decide⟩
      simpa using .cons ⟨by decide, rfl⟩ .nil
    · rintro (_ | ⟨set, pre⟩) t' records pad post heq
      · obtain ⟨rfl, -, -⟩ := ExportedSet.data.inj (List.cons.inj heq).1
        exact ⟨t, by decide, rfl⟩
      · simp [data] at heq
  obtain ⟨st, hreturns, hget⟩ := receiver_refreshed (RecencyList (TemplateKey Nat) OwnedTemplate) .le64
    Prod.fst stream ⟨htemplate 1 _, htemplate 2 _, hdata, trivial⟩ (by unfold Consistent; decide)
    (by decide : 65535 < 65536)
  exact ⟨st, hreturns, (hget 1 1 256 _).mpr ⟨t, by decide, rfl⟩⟩

end IpfixParser

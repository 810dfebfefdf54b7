import IpfixParser.Proof.Peers

/-!
# Exporters and a collector

Exporters that keep to the protocol (`Exports`): every message is well formed, none redefines a template,
and every record comes after the template that it was written with. However the messages of many of them
are mixed on their way, the receiver counts every template and every record of each, and has nothing to
complain about (`receiver_exporters`). What is known of an exporter after a message is `Knowledge.learn`.
-/

namespace IpfixParser

open Lib

/-! ### What a message teaches -/

section takes

variable {T : Type} {d : Dictionary T} {odid : UInt32} {t : T}

/-- None of the definitions `defs` is refused. -/
def Dictionary.Takes (d : Dictionary T) (odid : UInt32) : List TemplateRecord → T → Prop
  | [], _ => True
  | r :: defs, t => (d.define t odid r).1 ≠ .collision ∧ Takes d odid defs (d.define t odid r).2

theorem Dictionary.after_append (d : Dictionary T) (odid : UInt32) (defs defs' : List TemplateRecord)
    (t : T) : d.after odid (defs ++ defs') t = d.after odid defs' (d.after odid defs t) := List.foldl_append

theorem Dictionary.takes_append {defs defs' : List TemplateRecord} :
    d.Takes odid (defs ++ defs') t ↔ d.Takes odid defs t ∧ d.Takes odid defs' (d.after odid defs t) := by
  induction defs generalizing t with
  | nil => exact (iff_of_eq (true_and _)).symm
  | cons r defs ih =>
    have hrest := @ih (d.define t odid r).2
    simp only [List.cons_append, Takes, hrest, and_assoc]
    rfl

end takes

/-- What is known after the definitions `defs`. -/
def Knowledge.learn (k : Knowledge) (odid : UInt32) (defs : List TemplateRecord) : Knowledge :=
  defs.foldl (fun k r => (k.define odid r).2) k

/-- No definition of `defs` differs from what is known, or from another of them. -/
structure Knowledge.Allows (k : Knowledge) (odid : UInt32) (defs : List TemplateRecord) : Prop where
  known : ∀ r ∈ defs, ∀ t, k odid r.id = some t → t = .ofRecord r
  agree : ∀ r ∈ defs, ∀ r' ∈ defs, r.id = r'.id → r = r'

namespace Knowledge

variable {k : Knowledge} {odid : UInt32} {r : TemplateRecord} {defs : List TemplateRecord}

theorem Allows.sublist {defs' : List TemplateRecord} (h : k.Allows odid defs) (hsub : defs' ⊆ defs) :
    k.Allows odid defs' where
  known r hr := h.known r (hsub hr)
  agree r hr r' hr' := h.agree r (hsub hr) r' (hsub hr')

theorem define_of_known (h : ∀ t, k odid r.id = some t → t = .ofRecord r) :
    (k.define odid r).1 ≠ .collision ∧ ∀ odid' id, (k.define odid r).2 odid' id =
      if odid' = odid ∧ id = r.id then some (.ofRecord r) else k odid' id := by
  unfold define
  cases hk : k odid r.id with
  | none =>
    exact ⟨by simp, fun _ _ => rfl⟩
  | some t =>
    obtain rfl := h t hk
    refine ⟨by simp [TemplateRef.ofRecord], fun odid' id => ?_⟩
    simp only [TemplateRef.ofRecord, and_self, if_true]
    split_ifs with hkey
    · rw [hkey.1, hkey.2, hk]
      rfl
    · rfl

theorem Allows.define (h : k.Allows odid (r :: defs)) : (k.define odid r).2.Allows odid defs := by
  have hr := h.known r (List.mem_cons_self ..)
  refine ⟨fun r' hr' t ht => ?_, fun r₁ h₁ r₂ h₂ => h.agree r₁ (.tail _ h₁) r₂ (.tail _ h₂)⟩
  rw [(define_of_known hr).2] at ht
  split_ifs at ht with hkey
  · obtain rfl := h.agree r' (.tail _ hr') r (List.mem_cons_self ..) hkey.2
    exact (Option.some.inj ht).symm
  · exact h.known r' (.tail _ hr') t ht

theorem Allows.learn_of_some (h : k.Allows odid defs) {odid' : UInt32} {id : TemplateId} {t : TemplateRef}
    (ht : k odid' id = some t) : k.learn odid defs odid' id = some t := by
  induction defs generalizing k with
  | nil => exact ht
  | cons r defs ih =>
    apply ih h.define
    have hr := h.known r (List.mem_cons_self ..)
    rw [(define_of_known hr).2]
    split_ifs with hkey
    · obtain ⟨rfl, rfl⟩ := hkey
      rw [hr t ht]
    · exact ht

theorem Allows.learn_of_mem (h : k.Allows odid defs) (hr : r ∈ defs) :
    k.learn odid defs odid r.id = some (.ofRecord r) := by
  induction defs generalizing k with
  | nil => exact absurd hr List.not_mem_nil
  | cons r₀ defs ih =>
    rcases List.mem_cons.mp hr with rfl | hr
    · apply h.define.learn_of_some
      rw [(define_of_known (h.known r (List.mem_cons_self ..))).2, if_pos ⟨rfl, rfl⟩]
    · exact ih h.define hr

theorem Allows.takes (h : k.Allows odid defs) : dictionary.Takes odid defs k := by
  induction defs generalizing k with
  | nil => trivial
  | cons r defs ih => exact ⟨(define_of_known (h.known r (List.mem_cons_self ..))).1, ih h.define⟩

end Knowledge

/-! ### What is seen of a message -/

/-- The record that an item is. -/
def Seen.dataRecord : Seen → Option DataRecord
  | .record r => some r
  | _ => none

/-- The definitions `defs` taken in and the records `records` read, and nothing else. -/
structure Clean (defs : List TemplateRecord) (records : List DataRecord) (seen : List Seen) : Prop where
  templates : seen.countP Seen.accepted = defs.length
  records : seen.filterMap Seen.dataRecord = records
  quiet : ∀ x ∈ seen, x.accepted ∨ x.isRecord

theorem Clean.append {defs defs' : List TemplateRecord} {records records' : List DataRecord}
    {seen seen' : List Seen} (h : Clean defs records seen) (h' : Clean defs' records' seen') :
    Clean (defs ++ defs') (records ++ records') (seen ++ seen') where
  templates := by rw [List.countP_append, h.templates, h'.templates, List.length_append]
  records := by rw [List.filterMap_append, h.records, h'.records]
  quiet x hx := (List.mem_append.mp hx).elim (h.quiet x) (h'.quiet x)

theorem Clean.tally {P : Type} [ToString P] {defs : List TemplateRecord} {records : List DataRecord}
    {seen : List Seen} (h : Clean defs records seen) (peer : P) :
    Tally.of peer seen = ⟨defs.length, records.length, []⟩ := by
  have hrecords : seen.countP Seen.isRecord = (seen.filterMap Seen.dataRecord).length := by
    rw [List.length_filterMap_eq_countP]
    congr 1
    funext x
    cases x <;> rfl
  have hlines : seen.filterMap (Seen.complaint peer) = [] := by
    rw [List.filterMap_eq_nil_iff]
    intro x hx
    have hquiet := h.quiet x hx
    cases x with
    | template kind r outcome =>
      cases outcome with
      | collision => simp [Seen.accepted, Seen.isRecord] at hquiet
      | inserted => rfl
      | alreadyPresent => rfl
    | record r => rfl
    | setError e => simp [Seen.accepted, Seen.isRecord] at hquiet
    | templateError kind e => simp [Seen.accepted, Seen.isRecord] at hquiet
    | unknownTemplate id => simp [Seen.accepted, Seen.isRecord] at hquiet
    | recordError e => simp [Seen.accepted, Seen.isRecord] at hquiet
  unfold Tally.of
  rw [h.templates, hrecords, h.records, hlines]

theorem clean_tell {T : Type} {d : Dictionary T} {odid : UInt32} (kind : TemplateSetKind)
    {records : List TemplateRecord} {t : T} (h : d.Takes odid records t) :
    Clean records [] (d.tell odid kind (records.map .ok) t).1 := by
  induction records generalizing t with
  | nil => exact ⟨rfl, rfl, fun x hx => absurd hx List.not_mem_nil⟩
  | cons r records ih =>
    obtain ⟨hnot, hrest⟩ := h
    have hfirst : Clean [r] [] [.template kind r (d.define t odid r).1] := by
      have haccepted : (Seen.template kind r (d.define t odid r).1).accepted = true := by
        simpa [Seen.accepted] using hnot
      refine ⟨by simp [haccepted], rfl, fun x hx => ?_⟩
      rw [List.mem_singleton.mp hx]
      exact .inl haccepted
    exact hfirst.append (ih hrest)

theorem clean_records (records : List DataRecord) : Clean [] records (records.map Seen.record) where
  templates := by
    rw [List.countP_map, List.length_nil, List.countP_eq_zero]
    exact fun r _ => Bool.false_ne_true
  records := by
    rw [List.filterMap_map]
    exact List.filterMap_some
  quiet x hx := by
    obtain ⟨r, -, rfl⟩ := List.mem_map.mp hx
    exact .inr rfl

/-! ### Reading a message back -/

theorem setsIn_encode {msg : ExportedMessage} {n : Nat} (h : msg.Valid n) :
    setsIn msg.payload = (msg.sets.map ExportedSet.toSet).map .ok := by
  have hpayload : msg.payload = (msg.sets.map ExportedSet.toSet).flatMap Set.encode ++ [] := by
    rw [List.append_nil, List.flatMap_map]
    rfl
  have hsets : ∀ s ∈ msg.sets.map ExportedSet.toSet, s.WellFormed := by
    simpa using h.wellFormed
  exact (frames_setsIn msg.payload).unique
    (Set.framing.frames_ok_iff.mpr ⟨[], hpayload, Nat.succ_pos _, hsets⟩)

theorem templatesIn_encode {n : Nat} {kind : TemplateSetKind} {records : List TemplateRecord} {pad : Bytes}
    (hrecords : ∀ r ∈ records, kind.Valid n r) (hpad : pad.length < kind.minHeader) :
    templatesIn n kind (records.flatMap kind.encode ++ pad) = records.map .ok :=
  (frames_templatesIn n kind _).unique ((kind.framing n).frames_ok_iff.mpr ⟨pad, rfl, hpad, hrecords⟩)

theorem recordsIn_encode {t : TemplateRef} {records : List (List Encoded)} {pad : Bytes}
    (hrecords : ∀ es ∈ records, t.Encodes es) (hpos : 0 < t.minSize) (hpad : pad.length < t.minSize) :
    recordsIn t (records.flatMap TemplateRef.rawRecord ++ pad) =
      (records.map fun es => (⟨TemplateRef.rawRecord es, t⟩ : DataRecord)).map .ok := by
  have hraw : records.flatMap TemplateRef.rawRecord =
      (records.map fun es => (⟨TemplateRef.rawRecord es, t⟩ : DataRecord)).flatMap DataRecord.raw := by
    rw [List.flatMap_map]
  have hvalid : ∀ r ∈ records.map fun es => (⟨TemplateRef.rawRecord es, t⟩ : DataRecord),
      t.IsRecord r := by
    simpa using fun es hes => TemplateRef.isRecord (hrecords es hes)
  exact (frames_recordsIn hpos _).unique
    ((t.framing hpos).frames_ok_iff.mpr ⟨pad, by rw [hraw], hpad, hvalid⟩)

/-- The data records of a set. -/
def ExportedSet.dataRecords : ExportedSet → List DataRecord
  | templates _ _ _ => []
  | data t records _ => records.map fun es => ⟨TemplateRef.rawRecord es, t⟩

/-- The data records of a message. -/
def ExportedMessage.dataRecords (msg : ExportedMessage) : List DataRecord :=
  msg.sets.flatMap ExportedSet.dataRecords

section encode

variable {T : Type} {d : Dictionary T} {n : Nat} {odid : UInt32} {t : T}

/-- A data set's template is known. -/
def ExportedSet.KnownTo (d : Dictionary T) (odid : UInt32) (t : T) : ExportedSet → Prop
  | templates _ _ _ => True
  | data template _ _ => d.get t odid template.id = some template

theorem read_encode {s : ExportedSet} (hs : s.Valid n) (htakes : d.Takes odid s.definitions t)
    (hknown : s.KnownTo d odid t) :
    ∃ seen, d.read n odid s.toSet t = some (seen, d.after odid s.definitions t) ∧
      Clean s.definitions s.dataRecords seen := by
  cases s with
  | templates kind records pad =>
    obtain ⟨hrecords, hpad⟩ := hs
    have hdefs : (records.map (Except.ok : TemplateRecord → Result TemplateRecord)).filterMap
        Except.toOption = records := by
      rw [List.filterMap_map]
      exact List.filterMap_some
    have htell : d.tell odid kind (templatesIn n kind (records.flatMap kind.encode ++ pad)) t =
        ((d.tell odid kind (records.map .ok) t).1, d.after odid records t) := by
      rw [templatesIn_encode hrecords hpad]
      exact Prod.ext rfl ((d.tell_after odid kind _ t).trans (by rw [hdefs]))
    refine ⟨_, ?_, clean_tell kind htakes⟩
    cases kind with
    | template => exact congrArg some htell
    | optionsTemplate => exact congrArg some htell
  | data template records pad =>
    obtain ⟨-, -, hsome, hrecords, hpad⟩ := hs
    have hpos := TemplateRef.minSize_pos_iff.mpr hsome
    have hget : d.get t odid template.id = some template := hknown
    refine ⟨_, ?_, clean_records (records.map fun es => ⟨TemplateRef.rawRecord es, template⟩)⟩
    simp only [Dictionary.read, ExportedSet.toSet, hget, if_neg (Nat.ne_of_gt hpos),
      recordsIn_encode hrecords hpos hpad, List.map_map]
    rfl

theorem journal_encode {sets : List ExportedSet} (hsets : ∀ s ∈ sets, s.Valid n)
    (htakes : d.Takes odid (sets.flatMap ExportedSet.definitions) t)
    (hknown : ∀ pre s post, sets = pre ++ s :: post →
      s.KnownTo d odid (d.after odid (pre.flatMap ExportedSet.definitions) t)) :
    ∃ seen, d.journal n odid ((sets.map ExportedSet.toSet).map .ok) t =
        some (seen, d.after odid (sets.flatMap ExportedSet.definitions) t) ∧
      Clean (sets.flatMap ExportedSet.definitions) (sets.flatMap ExportedSet.dataRecords) seen := by
  induction sets generalizing t with
  | nil => exact ⟨[], rfl, clean_records []⟩
  | cons s sets ih =>
    rw [List.flatMap_cons, Dictionary.takes_append] at htakes
    obtain ⟨seen, hread, hclean⟩ := read_encode (hsets s (List.mem_cons_self ..)) htakes.1
      (hknown [] s sets rfl)
    obtain ⟨rest, hjournal, hrest⟩ := ih (fun s' hs' => hsets s' (.tail _ hs')) htakes.2 (by
      intro pre s' post heq
      have hs' := hknown (s :: pre) s' post (by rw [heq, List.cons_append])
      rwa [List.flatMap_cons, Dictionary.after_append] at hs')
    refine ⟨seen ++ rest, ?_, hclean.append hrest⟩
    rw [List.map_cons, List.map_cons, Dictionary.journal, hread]
    simp only [Option.bind_eq_bind, Option.bind_some, hjournal]
    rw [List.flatMap_cons, Dictionary.after_append]
    rfl

theorem ExportedMessage.observe_encode {msg : ExportedMessage} (h : msg.Valid n)
    (htakes : d.Takes msg.observationDomainId msg.definitions t)
    (hknown : ∀ pre s post, msg.sets = pre ++ s :: post → s.KnownTo d msg.observationDomainId
      (d.after msg.observationDomainId (pre.flatMap ExportedSet.definitions) t)) :
    ∃ seen, d.observe n msg.encode t =
        some (.ok (msg.header, seen), d.after msg.observationDomainId msg.definitions t) ∧
      Clean msg.definitions msg.dataRecords seen := by
  obtain ⟨seen, hjournal, hclean⟩ := journal_encode h.sets htakes hknown
  refine ⟨seen, ?_, hclean⟩
  unfold Dictionary.observe
  rw [h.decode]
  simp only [setsIn_encode h, Option.bind_eq_bind]
  rw [show msg.header.observationDomainId = msg.observationDomainId from rfl, hjournal]
  rfl

end encode

/-! ### Exporters -/

/-- A message of an exporter that has made `k` known so far: it fits its length word, redefines nothing,
and has every data set after the template that its records were written with. -/
structure ExportedMessage.InOrder (n : Nat) (k : Knowledge) (msg : ExportedMessage) : Prop where
  valid : msg.Valid n
  known : ∀ r ∈ msg.definitions, ∀ t, k msg.observationDomainId r.id = some t → t = .ofRecord r
  templates : ∀ pre t records pad post, msg.sets = pre ++ .data t records pad :: post →
    k msg.observationDomainId t.id = some t ∨ ∃ r ∈ pre.flatMap ExportedSet.definitions, .ofRecord r = t

/-- What is known after a message. -/
def Knowledge.after (k : Knowledge) (msg : ExportedMessage) : Knowledge :=
  k.learn msg.observationDomainId msg.definitions

/-- An exporter that keeps to the protocol. -/
def Exports (n : Nat) : Knowledge → List ExportedMessage → Prop
  | _, [] => True
  | k, msg :: msgs => msg.InOrder n k ∧ Exports n (k.after msg) msgs

namespace ExportedMessage

variable {n : Nat} {k : Knowledge} {msg : ExportedMessage}

theorem InOrder.observe (h : msg.InOrder n k) :
    ∃ seen, Knowledge.dictionary.observe n msg.encode k = some (.ok (msg.header, seen), k.after msg) ∧
      Clean msg.definitions msg.dataRecords seen := by
  have hallows : k.Allows msg.observationDomainId msg.definitions := ⟨h.known, h.valid.agree⟩
  refine observe_encode h.valid hallows.takes ?_
  intro pre s post heq
  have hpre : pre.flatMap ExportedSet.definitions ⊆ msg.definitions := by
    unfold definitions
    rw [heq, List.flatMap_append]
    exact List.subset_append_left ..
  cases s with
  | templates kind records pad => trivial
  | data t records pad =>
    rcases h.templates pre t records pad post heq with hold | ⟨r, hr, rfl⟩
    · exact (hallows.sublist hpre).learn_of_some hold
    · exact (hallows.sublist hpre).learn_of_mem hr

theorem inOrder_of_template {t : TemplateRecord} {records : List (List Encoded)} {pad : Bytes}
    (hsets : msg.sets = [.templates .template [t] [], .data (.ofRecord t) records pad])
    (ht : TemplateSetKind.template.Valid n t) (hid : 256 ≤ t.id) (hsome : ∃ f ∈ t.fields, f.fieldLength ≠ 0)
    (hrecords : ∀ es ∈ records, TemplateRef.Encodes (.ofRecord t) es)
    (hpad : pad.length < (TemplateRef.ofRecord t).minSize) (hlen : msg.encode.length ≤ 65535) :
    msg.InOrder n .empty := by
  have hdefs : msg.definitions = [t] := by
    rw [definitions, hsets]
    rfl
  refine ⟨⟨fun s hs => ?_, hlen, fun r hr r' hr' _ => ?_⟩, fun r _ t ht => (nomatch ht), ?_⟩
  · rw [hsets] at hs
    rcases List.mem_pair.mp hs with rfl | rfl
    · exact ⟨by simpa using ht, Nat.succ_pos _⟩
    · exact ⟨hid, ht.header.u16, hsome, hrecords, hpad⟩
  · rw [hdefs, List.mem_singleton] at hr hr'
    rw [hr, hr']
  · intro pre t' records' pad' post heq
    refine .inr ⟨t, ?_⟩
    rw [hsets] at heq
    rcases pre with _ | ⟨a, _ | ⟨b, pre⟩⟩
    · cases heq
    · obtain ⟨rfl, heq⟩ := List.cons.inj heq
      cases heq
      exact ⟨List.mem_singleton_self t, rfl⟩
    · simp at heq

end ExportedMessage

theorem ExportedSet.definitions_toSet {n : Nat} {s : ExportedSet} (hs : s.Valid n) :
    s.toSet.definitions n = s.definitions := by
  cases s with
  | data t records pad => rfl
  | templates kind records pad =>
    obtain ⟨hrecords, hpad⟩ := hs
    have hread : (templatesIn n kind (records.flatMap kind.encode ++ pad)).filterMap Except.toOption =
        records := by
      rw [templatesIn_encode hrecords hpad, List.filterMap_map]
      exact List.filterMap_some
    cases kind with
    | template => exact hread
    | optionsTemplate => exact hread

theorem ExportedMessage.taughtKeys_encode {K : Type} {n : Nat} {msg : ExportedMessage} (h : msg.Valid n)
    (session : K) : taughtKeys n session msg.encode =
      definedKeys session msg.observationDomainId msg.definitions := by
  have hsets : definitionsIn n (setsIn msg.payload) = msg.definitions := by
    have htoOption : ((msg.sets.map ExportedSet.toSet).map (Except.ok : Set → Result Set)).filterMap
        Except.toOption = msg.sets.map ExportedSet.toSet := by
      rw [List.filterMap_map]
      exact List.filterMap_some
    rw [setsIn_encode h, definitionsIn, htoOption, List.flatMap_map]
    exact List.flatMap_congr fun s hs => ExportedSet.definitions_toSet (h.sets s hs)
  unfold taughtKeys
  rw [h.decode]
  simp only [hsets]
  rfl

/-! ### Any interleaving -/

section exchange

variable {P K M : Type} [ToString P] [DecidableEq K] [LruMap M (TemplateKey K) OwnedTemplate]
  [LawfulLruMap M]

/-- The messages of one exporter. -/
def messagesOf (s : K) (stream : List (K × ExportedMessage)) : List ExportedMessage :=
  (stream.filter fun x => x.1 = s).map Prod.snd

/-- The messages as they are sent. -/
abbrev sent {S : Type} (stream : List (S × ExportedMessage)) : List (S × Bytes) :=
  stream.map fun x => (x.1, x.2.encode)

/-- What is observed of a message that arrives as it was put together. -/
def ExportedMessage.SeenAs (msg : ExportedMessage) (o : Observed) : Prop :=
  ∃ seen, o = .ok (msg.header, seen) ∧ Clean msg.definitions msg.dataRecords seen

omit [ToString P] in
/-- The messages of exporters that keep to the protocol are observed as they were put together, and leave
what each exporter has defined. -/
theorem SessionTemplateStore.Holds.exports {n : Nat} {keys : List (TemplateKey K)} {known : K → Knowledge}
    {st : SessionTemplateStore M} (h : st.Holds keys known) {stream : List (K × ExportedMessage)}
    (hkeys : ∀ x ∈ stream, definedKeys x.1 x.2.observationDomainId x.2.definitions ⊆ keys)
    (hexports : ∀ s, Exports n (known s) (messagesOf s stream)) :
    ∃ observed st', SessionTemplateStore.observeAll n (sent stream) st = some (observed, st') ∧
      List.Forall₂ (fun x o => x.2.SeenAs o) stream observed ∧
      st'.Holds keys fun s => (messagesOf s stream).foldl Knowledge.after (known s) := by
  induction stream generalizing st known with
  | nil => exact ⟨[], st, rfl, .nil, h⟩
  | cons x stream ih =>
    obtain ⟨s₀, msg⟩ := x
    have hself : messagesOf s₀ ((s₀, msg) :: stream) = msg :: messagesOf s₀ stream := by
      simp [messagesOf]
    have hother : ∀ s, s ≠ s₀ → messagesOf s ((s₀, msg) :: stream) = messagesOf s stream := by
      intro s hs
      simp [messagesOf, Ne.symm hs]
    have hfirst := hexports s₀
    rw [hself] at hfirst
    obtain ⟨hmsg, hrest⟩ := hfirst
    obtain ⟨seen, hknown, hclean⟩ := hmsg.observe
    have hsub : taughtKeys n s₀ msg.encode ⊆ keys := by
      rw [ExportedMessage.taughtKeys_encode hmsg.valid]
      exact hkeys (s₀, msg) (List.mem_cons_self ..)
    obtain ⟨st₁, hobserve, hholds⟩ := h.observe_of_known hsub hknown
    obtain ⟨observed, st₂, hall, hseen, hend⟩ := ih hholds (fun x hx => hkeys x (.tail _ hx)) (by
      intro s
      by_cases hs : s = s₀
      · rw [hs, Function.update_self]
        exact hrest
      · rw [Function.update_of_ne hs, ← hother s hs]
        exact hexports s)
    refine ⟨_ :: observed, st₂, ?_, .cons ⟨seen, rfl, hclean⟩ hseen, ?_⟩
    · rw [sent, List.map_cons, SessionTemplateStore.observeAll, hobserve]
      simp only [Option.bind_eq_bind, Option.bind_some]
      rw [hall]
      rfl
    · have hafter : (fun s => (messagesOf s stream).foldl Knowledge.after
          (Function.update known s₀ ((known s₀).after msg) s)) =
          fun s => (messagesOf s ((s₀, msg) :: stream)).foldl Knowledge.after (known s) := by
        funext s
        by_cases hs : s = s₀
        · rw [hs, Function.update_self, hself, List.foldl_cons]
        · rw [Function.update_of_ne hs, hother s hs]
      rw [← hafter]
      exact hend

/-- The line for a message that arrives as it was put together. -/
def ExportedMessage.line (peer : P) (msg : ExportedMessage) : Line :=
  .stdout (Tally.summary peer msg.header ⟨msg.definitions.length, msg.dataRecords.length, []⟩)

theorem receiveAll_of_seenAs (tg : Target) (ip : P → K) {stream : List (P × ExportedMessage)}
    {observed : List Observed} {store : SessionTemplateStore M}
    (hobserve : SessionTemplateStore.observeAll 128 (sent (stream.map fun x => (ip x.1, x.2)))
      (CollectorState.start : CollectorState M).store = some (observed, store))
    (hseen : List.Forall₂ (fun x o => x.2.SeenAs o) (stream.map fun x => (ip x.1, x.2)) observed) {fuel : Nat}
    (hfuel : 65535 < fuel) :
    ∃ fbuf, receiveAll tg fuel ip (sent stream) (.start : CollectorState M) =
      .ok (stream.map fun x => [x.2.line x.1], ⟨store, fbuf⟩) := by
  have hlen : (CollectorState.start : CollectorState M).fbuf.length = 128 := List.length_replicate
  have hsessions : sent (stream.map fun x => (ip x.1, x.2)) = sessionsOf ip (sent stream) := by
    simp [sent, sessionsOf]
  rw [hsessions, ← hlen] at hobserve
  obtain ⟨fbuf, -, hreturns⟩ := (receiveAll_eq tg ip (sent stream) sound_start).1 observed store hobserve
    fuel hfuel
  have hlines : linesOf (sent stream) observed = stream.map fun x => [x.2.line x.1] := by
    rw [List.forall₂_map_left_iff] at hseen
    clear hreturns hobserve hsessions
    induction hseen with
    | nil => rfl
    | @cons x o stream observed ho _ ih =>
      obtain ⟨seen, rfl, hclean⟩ := ho
      rw [linesOf, sent, List.map_cons, List.zipWith_cons_cons, List.map_cons, ← ih]
      simp only [Observed.lines, hclean.tally, List.nil_append]
      rfl
  exact ⟨fbuf, by rw [hreturns, hlines]⟩

/-- Messages of exporters that keep to the protocol, sent from one port or many and mixed in any way: the
receiver prints one line for each, with all of its templates and all of its records counted, and no
complaint. It ends with what each exporter has defined. -/
theorem receiver_exporters (M : Type) [LruMap M (TemplateKey K) OwnedTemplate] [LawfulLruMap M]
    (tg : Target) (ip : P → K) (stream : List (P × ExportedMessage))
    (hexports : ∀ s, Exports 128 .empty (messagesOf s (stream.map fun x => (ip x.1, x.2))))
    (hroom : (stream.flatMap fun x => definedKeys (ip x.1) x.2.observationDomainId
      x.2.definitions).dedup.length ≤ 4096) {fuel : Nat} (hfuel : 65535 < fuel) :
    ∃ st, receiveAll tg fuel ip (sent stream) (.start : CollectorState M) =
        .ok (stream.map fun x => [x.2.line x.1], st) ∧
      ∀ s, (st.store.view s).get = (messagesOf s (stream.map fun x => (ip x.1, x.2))).foldl
        Knowledge.after .empty := by
  have hkeys : ∀ x ∈ stream.map fun x => (ip x.1, x.2),
      definedKeys x.1 x.2.observationDomainId x.2.definitions ⊆ stream.flatMap fun x =>
        definedKeys (ip x.1) x.2.observationDomainId x.2.definitions := by
    intro x hx key hkey
    obtain ⟨y, hy, rfl⟩ := List.mem_map.mp hx
    exact List.mem_flatMap.mpr ⟨y, hy, hkey⟩
  obtain ⟨observed, store, hobserve, hseen, hholds⟩ := (holds_start (M := M) hroom).exports hkeys hexports
  obtain ⟨fbuf, hreturns⟩ := receiveAll_of_seenAs tg ip hobserve hseen hfuel
  exact ⟨⟨store, fbuf⟩, hreturns, fun s => funext fun odid => funext fun id => hholds.known s odid id⟩

end exchange

theorem receiver_exporters_two :
    let msg (field : FieldSpecifier) (record : Encoded) : ExportedMessage := ⟨0, 0, 1,
      [.templates .template [⟨256, 0, [field]⟩] [], .data ⟨256, 0, [field]⟩ [[record]] []]⟩
    let stream : List ((Nat × Nat) × ExportedMessage) :=
      [((1, 4739), msg ⟨8, none, 4⟩ (.fixed [10, 0, 0, 1])), ((2, 4740), msg ⟨82, none, 65535⟩ (.short [65]))]
    ∃ st, receiveAll .le64 65536 Prod.fst (sent stream)
        (.start : CollectorState (RecencyList (TemplateKey Nat) OwnedTemplate)) =
        .ok (stream.map fun x => [x.2.line x.1], st) ∧
      ∀ s, (st.store.view s).get = (messagesOf s (stream.map fun x => (x.1.1, x.2))).foldl
        Knowledge.after .empty := by
  intro msg stream
  have hinOrder : ∀ field record, field.WellFormed → record.Fits field →
      (⟨256, 0, [field]⟩ : TemplateRef).minSize ≠ 0 → (msg field record).encode.length ≤ 65535 →
      (msg field record).InOrder 128 .empty := by
    intro field record hfield hfits hsize hlen
    have hpos := Nat.pos_of_ne_zero hsize
    refine ExportedMessage.inOrder_of_template rfl ⟨⟨by simp, by simp, by simp, rfl⟩, by simpa⟩ (by simp)
      (TemplateRef.minSize_pos_iff.mp hpos) ?_ hpos hlen
    simpa using .cons hfits .nil
  refine receiver_exporters _ .le64 Prod.fst stream ?_ (by decide) (by decide)
  intro s
  by_cases hfirst : s = 1
  · subst hfirst
    exact ⟨hinOrder _ _ (by simp [FieldSpecifier.WellFormed]) ⟨by decide, rfl⟩ (by decide) (by decide),
      trivial⟩
  · by_cases hsecond : s = 2
    · subst hsecond
      exact ⟨hinOrder _ _ (by simp [FieldSpecifier.WellFormed]) ⟨rfl, by decide⟩ (by decide) (by decide),
        trivial⟩
    · rw [show messagesOf s (stream.map fun x => (x.1.1, x.2)) = [] by
        simp [messagesOf, stream, Ne.symm hfirst, Ne.symm hsecond]]
      trivial

end IpfixParser

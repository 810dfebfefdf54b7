import IpfixParser.Wire.Journal

/-!
# Journals

What is in the lists that a journal is made from, and how journals compare: dictionaries that agree on
what is looked up and defined have the same journals (`Dictionary.Agree.journal`), and a journal keeps
what every definition in it keeps (`Dictionary.journal_keeps`).
-/

namespace IpfixParser

open Lib

/-! ### The frames of a buffer -/

theorem frames_setsIn (payload : Bytes) : Frames setPadding Set.decode payload (setsIn payload) :=
  Set.framing.frames_readFrames (Nat.lt_succ_self _)

theorem frames_templatesIn (n : Nat) (kind : TemplateSetKind) (b : Bytes) :
    Frames kind.padding (kind.decode n) b (templatesIn n kind b) :=
  (kind.framing n).frames_readFrames (Nat.lt_succ_self _)

theorem frames_recordsIn {t : TemplateRef} (hpos : 0 < t.minSize) (b : Bytes) :
    Frames t.padding t.cutRecord b (recordsIn t b) :=
  (t.framing hpos).frames_readFrames (Nat.lt_succ_self _)

theorem length_setsIn_le (payload : Bytes) : (setsIn payload).length ≤ payload.length :=
  Set.framing.length_items_le (Nat.succ_pos 3) (frames_setsIn payload)

theorem length_templatesIn_le (n : Nat) (kind : TemplateSetKind) (b : Bytes) :
    (templatesIn n kind b).length ≤ b.length := by
  refine (kind.framing n).length_items_le ?_ (frames_templatesIn n kind b)
  cases kind <;> decide

theorem length_recordsIn_le {t : TemplateRef} (hpos : 0 < t.minSize) (b : Bytes) :
    (recordsIn t b).length ≤ b.length :=
  (t.framing hpos).length_items_le hpos (frames_recordsIn hpos b)

theorem wellFormed_of_mem_setsIn {payload : Bytes} {s : Set} (h : .ok s ∈ setsIn payload) :
    s.WellFormed :=
  Set.framing.valid_of_mem (frames_setsIn payload) h

theorem valid_of_mem_templatesIn {n : Nat} {kind : TemplateSetKind} {b : Bytes} {r : TemplateRecord}
    (h : r ∈ (templatesIn n kind b).filterMap Except.toOption) : kind.Valid n r := by
  obtain ⟨item, hitem, hr⟩ := List.mem_filterMap.mp h
  obtain rfl : item = .ok r := by
    cases item with
    | ok r' => simpa [Except.toOption] using hr
    | error e => simp [Except.toOption] at hr
  exact (kind.framing n).valid_of_mem (frames_templatesIn n kind b) hitem

theorem length_fields_of_mem_definitionsIn {n : Nat} {items : List (Result Set)} {r : TemplateRecord}
    (h : r ∈ definitionsIn n items) : r.fields.length ≤ 65535 := by
  obtain ⟨s, -, hr⟩ := List.mem_flatMap.mp h
  unfold Set.definitions at hr
  cases hkind : s.kind with
  | template =>
    rw [hkind] at hr
    exact (valid_of_mem_templatesIn hr).header.u16
  | optionsTemplate =>
    rw [hkind] at hr
    exact (valid_of_mem_templatesIn hr).header.u16
  | data id =>
    rw [hkind] at hr
    exact absurd hr List.not_mem_nil

theorem taught_of_decode {n : Nat} {datagram payload : Bytes} {header : MessageHeader}
    (h : MessageHeader.decode datagram = .ok (header, payload)) :
    taught n datagram = definitionsIn n (setsIn payload) := by
  unfold taught
  rw [h]

theorem length_fields_of_mem_taught {n : Nat} {datagram : Bytes} {r : TemplateRecord}
    (h : r ∈ taught n datagram) : r.fields.length ≤ 65535 := by
  unfold taught at h
  split at h
  · exact length_fields_of_mem_definitionsIn h
  · exact absurd h List.not_mem_nil

/-! ### Journals of dictionaries that agree -/

/-- Dictionaries that give the same answers, while only the records `P` are defined. -/
structure Dictionary.Agree {T T' : Type} (d : Dictionary T) (d' : Dictionary T') (odid : UInt32)
    (P : TemplateRecord → Prop) (R : T → T' → Prop) : Prop where
  get : ∀ {t t'} id, R t t' → d.get t odid id = d'.get t' odid id
  define : ∀ {t t' r}, R t t' → P r → (d.define t odid r).1 = (d'.define t' odid r).1 ∧
    R (d.define t odid r).2 (d'.define t' odid r).2

namespace Dictionary

variable {T T' : Type} {d : Dictionary T} {d' : Dictionary T'} {odid : UInt32}
  {P : TemplateRecord → Prop} {R : T → T' → Prop}

theorem Agree.tell (h : d.Agree d' odid P R) (kind : TemplateSetKind)
    {items : List (Result TemplateRecord)} (hitems : ∀ r ∈ items.filterMap Except.toOption, P r) {t : T}
    {t' : T'} (ht : R t t') :
    (d.tell odid kind items t).1 = (d'.tell odid kind items t').1 ∧
      R (d.tell odid kind items t).2 (d'.tell odid kind items t').2 := by
  induction items generalizing t t' with
  | nil => exact ⟨rfl, ht⟩
  | cons item items ih =>
    have hrest : ∀ r ∈ items.filterMap Except.toOption, P r := fun r hr =>
      hitems r (List.mem_filterMap.mpr (by
        obtain ⟨a, ha, hra⟩ := List.mem_filterMap.mp hr
        exact ⟨a, List.mem_cons_of_mem _ ha, hra⟩))
    cases item with
    | ok r =>
      have hr : P r := hitems r (List.mem_filterMap.mpr ⟨.ok r, List.mem_cons_self .., rfl⟩)
      obtain ⟨houtcome, ht'⟩ := h.define ht hr
      obtain ⟨hseen, hend⟩ := ih hrest ht'
      refine ⟨?_, hend⟩
      simp only [Dictionary.tell, houtcome, hseen]
    | error e =>
      obtain ⟨hseen, hend⟩ := ih hrest ht
      refine ⟨?_, hend⟩
      simp only [Dictionary.tell, hseen]

theorem read_cases {n : Nat} {set : Set} {t t' : T} {seen : List Seen}
    (h : d.read n odid set t = some (seen, t')) :
    (∃ kind, set.definitions n = (templatesIn n kind set.records).filterMap Except.toOption ∧
      d.tell odid kind (templatesIn n kind set.records) t = (seen, t')) ∨
    (set.definitions n = [] ∧ t' = t ∧ ((∃ tid, seen = [.unknownTemplate tid]) ∨
      ∃ tid template, d.get t odid tid = some template ∧ 0 < template.minSize ∧
        seen = (recordsIn template set.records).map Seen.ofRecord)) := by
  unfold read at h
  unfold Set.definitions
  cases hkind : set.kind with
  | template =>
    rw [hkind] at h
    exact .inl ⟨.template, rfl, Option.some.inj h⟩
  | optionsTemplate =>
    rw [hkind] at h
    exact .inl ⟨.optionsTemplate, rfl, Option.some.inj h⟩
  | data tid =>
    simp only [hkind] at h
    cases hget : d.get t odid tid with
    | none =>
      simp only [hget, Option.some.injEq, Prod.mk.injEq] at h
      exact .inr ⟨rfl, h.2.symm, .inl ⟨tid, h.1.symm⟩⟩
    | some template =>
      simp only [hget] at h
      split_ifs at h with hzero
      obtain ⟨rfl, rfl⟩ := Prod.mk.inj (Option.some.inj h)
      exact .inr ⟨rfl, rfl, .inr ⟨tid, template, hget, Nat.pos_of_ne_zero hzero, rfl⟩⟩

theorem journal_cons {n : Nat} {set : Set} {items : List (Result Set)} {t t' : T} {seen : List Seen}
    (h : d.journal n odid (.ok set :: items) t = some (seen, t')) :
    ∃ seen₁ t₁ seen₂, d.read n odid set t = some (seen₁, t₁) ∧
      d.journal n odid items t₁ = some (seen₂, t') ∧ seen = seen₁ ++ seen₂ := by
  obtain ⟨⟨seen₁, t₁⟩, hread, h⟩ := Option.bind_eq_some_iff.mp h
  obtain ⟨⟨seen₂, t₂⟩, hjournal, h⟩ := Option.bind_eq_some_iff.mp h
  obtain ⟨rfl, rfl⟩ := Prod.mk.inj (Option.some.inj h)
  exact ⟨seen₁, t₁, seen₂, hread, hjournal, rfl⟩

/-- A datagram is an error that changes nothing, or a header and a journal. -/
theorem observe_cases {n : Nat} {datagram : Bytes} {t t' : T} {o : Observed}
    (h : d.observe n datagram t = some (o, t')) :
    (∃ e, MessageHeader.decode datagram = .err e ∧ o = .error e ∧ t' = t) ∨
    ∃ header payload seen, MessageHeader.decode datagram = .ok (header, payload) ∧
      d.journal n header.observationDomainId (setsIn payload) t = some (seen, t') ∧
      o = .ok (header, seen) := by
  unfold observe at h
  cases hdec : MessageHeader.decode datagram with
  | panic =>
    rw [hdec] at h
    cases h
  | err e =>
    rw [hdec] at h
    obtain ⟨rfl, rfl⟩ := Prod.mk.inj (Option.some.inj h)
    exact .inl ⟨e, rfl, rfl, rfl⟩
  | ok x =>
    obtain ⟨header, payload⟩ := x
    rw [hdec] at h
    obtain ⟨⟨seen, t₁⟩, hjournal, h⟩ := Option.bind_eq_some_iff.mp h
    obtain ⟨rfl, rfl⟩ := Prod.mk.inj (Option.some.inj h)
    exact .inr ⟨header, payload, seen, rfl, hjournal, rfl⟩

/-! ### What a message leaves behind -/

/-- The table after the definitions `defs`. -/
def after (d : Dictionary T) (odid : UInt32) (defs : List TemplateRecord) (t : T) : T :=
  defs.foldl (fun t r => (d.define t odid r).2) t

theorem tell_after (d : Dictionary T) (odid : UInt32) (kind : TemplateSetKind)
    (items : List (Result TemplateRecord)) (t : T) :
    (d.tell odid kind items t).2 = d.after odid (items.filterMap Except.toOption) t := by
  induction items generalizing t with
  | nil => rfl
  | cons item items ih =>
    cases item with
    | ok r => exact ih _
    | error e => exact ih _

theorem read_after {n : Nat} {set : Set} {t t' : T} {seen : List Seen}
    (h : d.read n odid set t = some (seen, t')) : t' = d.after odid (set.definitions n) t := by
  rcases read_cases h with ⟨kind, hdefs, htell⟩ | ⟨hdefs, rfl, -⟩
  · have hafter := tell_after d odid kind (templatesIn n kind set.records) t
    rwa [htell, ← hdefs] at hafter
  · rw [hdefs]
    rfl

theorem journal_after {n : Nat} {b : Bytes} {items : List (Result Set)}
    (hframes : Frames setPadding Set.decode b items) {t t' : T} {seen : List Seen}
    (h : d.journal n odid items t = some (seen, t')) : t' = d.after odid (definitionsIn n items) t := by
  induction hframes generalizing t seen with
  | stop =>
    obtain ⟨-, rfl⟩ := Prod.mk.inj (Option.some.inj h)
    rfl
  | @ok b set r items _ _ _ ih =>
    obtain ⟨seen₁, t₁, rest, hread, hrest, rfl⟩ := journal_cons h
    rw [ih hrest, read_after hread]
    have hcons : definitionsIn n (.ok set :: items) = set.definitions n ++ definitionsIn n items := rfl
    rw [hcons]
    exact List.foldl_append.symm
  | err =>
    obtain ⟨-, rfl⟩ := Prod.mk.inj (Option.some.inj h)
    rfl

/-! ### Two dictionaries -/

/-- The results of both sides: the same items, and tables that still agree. -/
abbrev Same (R : T → T' → Prop) : Option (List Seen × T) → Option (List Seen × T') → Prop :=
  Option.Rel fun x x' => x.1 = x'.1 ∧ R x.2 x'.2

theorem Agree.read (h : d.Agree d' odid P R) {n : Nat} {set : Set}
    (hset : ∀ r ∈ set.definitions n, P r) {t : T} {t' : T'} (ht : R t t') :
    Same R (d.read n odid set t) (d'.read n odid set t') := by
  unfold Dictionary.read
  unfold Set.definitions at hset
  cases hkind : set.kind with
  | template =>
    rw [hkind] at hset
    exact .some (h.tell .template hset ht)
  | optionsTemplate =>
    rw [hkind] at hset
    exact .some (h.tell .optionsTemplate hset ht)
  | data id =>
    simp only [h.get id ht]
    cases d'.get t' odid id with
    | none => exact .some ⟨rfl, ht⟩
    | some template =>
      simp only
      split_ifs
      · exact .none
      · exact .some ⟨rfl, ht⟩

theorem Agree.journal (h : d.Agree d' odid P R) {n : Nat} {items : List (Result Set)}
    (hitems : ∀ r ∈ definitionsIn n items, P r) {t : T} {t' : T'} (ht : R t t') :
    Same R (d.journal n odid items t) (d'.journal n odid items t') := by
  induction items generalizing t t' with
  | nil => exact .some ⟨rfl, ht⟩
  | cons item items ih =>
    cases item with
    | error e => exact .some ⟨rfl, ht⟩
    | ok set =>
      have hcons : definitionsIn n (.ok set :: items) = set.definitions n ++ definitionsIn n items := rfl
      rw [hcons] at hitems
      have hread := h.read (fun r hr => hitems r (List.mem_append_left _ hr)) ht
      have hrest := fun r hr => hitems r (List.mem_append_right _ hr)
      simp only [Dictionary.journal]
      generalize d.read n odid set t = x at hread ⊢
      generalize d'.read n odid set t' = x' at hread ⊢
      cases hread with
      | none => exact .none
      | @some x x' hx =>
        obtain ⟨seen, t₁⟩ := x
        obtain ⟨seen', t₁'⟩ := x'
        obtain ⟨hseen, ht₁⟩ : seen = seen' ∧ R t₁ t₁' := hx
        subst hseen
        simp only [Option.bind_eq_bind, Option.bind_some]
        have hjournal := ih hrest ht₁
        generalize d.journal n odid items t₁ = y at hjournal ⊢
        generalize d'.journal n odid items t₁' = y' at hjournal ⊢
        cases hjournal with
        | none => exact .none
        | some hy => exact .some ⟨congrArg (seen ++ ·) hy.1, hy.2⟩

theorem observe_agree {T T' : Type} {d : Dictionary T} {d' : Dictionary T'}
    {P : UInt32 → TemplateRecord → Prop} {R : T → T' → Prop} (h : ∀ odid, d.Agree d' odid (P odid) R)
    {n : Nat} {datagram : Bytes}
    (hP : ∀ header payload, MessageHeader.decode datagram = .ok (header, payload) →
      ∀ r ∈ definitionsIn n (setsIn payload), P header.observationDomainId r) {t : T} {t' : T'}
    (ht : R t t') :
    Option.Rel (fun x x' => x.1 = x'.1 ∧ R x.2 x'.2) (d.observe n datagram t)
      (d'.observe n datagram t') := by
  unfold observe
  cases hdec : MessageHeader.decode datagram with
  | panic => exact .none
  | err e => exact .some ⟨rfl, ht⟩
  | ok x =>
    obtain ⟨header, payload⟩ := x
    have hjournal := (h header.observationDomainId).journal (hP header payload hdec) ht
    simp only
    generalize d.journal n header.observationDomainId (setsIn payload) t = y at hjournal ⊢
    generalize d'.journal n header.observationDomainId (setsIn payload) t' = y' at hjournal ⊢
    cases hjournal with
    | none => exact .none
    | some hy => exact .some ⟨congrArg (fun seen => Except.ok (header, seen)) hy.1, hy.2⟩

theorem agree_self {Inv : T → Prop} (hdefine : ∀ t, Inv t → ∀ r, P r → Inv (d.define t odid r).2) :
    d.Agree d odid P fun t t' => t = t' ∧ Inv t where
  get := by
    rintro t _ id ⟨rfl, -⟩
    rfl
  define := by
    rintro t _ r ⟨rfl, hInv⟩ hr
    exact ⟨rfl, rfl, hdefine t hInv r hr⟩

theorem read_keeps {Inv : T → Prop} {n : Nat} {set : Set}
    (hdefine : ∀ t, Inv t → ∀ r ∈ set.definitions n, Inv (d.define t odid r).2) {t t' : T}
    {seen : List Seen} (ht : Inv t) (h : d.read n odid set t = some (seen, t')) : Inv t' := by
  have hsame := (agree_self hdefine).read (fun r hr => hr) ⟨rfl, ht⟩
  rw [h, Same, Option.rel_some_some] at hsame
  exact hsame.2.2

/-- What every definition keeps, a journal keeps. -/
theorem journal_keeps {Inv : T → Prop} {n : Nat} {items : List (Result Set)}
    (hdefine : ∀ t, Inv t → ∀ r ∈ definitionsIn n items, Inv (d.define t odid r).2) {t t' : T}
    {seen : List Seen} (ht : Inv t) (h : d.journal n odid items t = some (seen, t')) : Inv t' := by
  have hsame := (agree_self hdefine).journal (fun r hr => hr) ⟨rfl, ht⟩
  rw [h, Same, Option.rel_some_some] at hsame
  exact hsame.2.2

theorem observe_keeps {Inv : T → Prop} {n : Nat} {datagram : Bytes}
    (hdefine : ∀ t, Inv t → ∀ odid, ∀ r ∈ taught n datagram, Inv (d.define t odid r).2) {t t' : T}
    {o : Observed} (ht : Inv t) (h : d.observe n datagram t = some (o, t')) : Inv t' := by
  have htaught : ∀ header payload, MessageHeader.decode datagram = .ok (header, payload) →
      ∀ r ∈ definitionsIn n (setsIn payload), r ∈ taught n datagram := by
    intro header payload hdec r hr
    rw [taught_of_decode hdec]
    exact hr
  have hsame := observe_agree (fun odid => agree_self fun t ht => hdefine t ht odid) htaught ⟨rfl, ht⟩
  rw [h, Option.rel_some_some] at hsame
  exact hsame.2.2

/-! ### The length of a journal -/

theorem length_tell (d : Dictionary T) (odid : UInt32) (kind : TemplateSetKind)
    (items : List (Result TemplateRecord)) (t : T) :
    (d.tell odid kind items t).1.length = items.length := by
  induction items generalizing t with
  | nil => rfl
  | cons item items ih =>
    cases item with
    | ok r => exact congrArg (· + 1) (ih _)
    | error e => exact congrArg (· + 1) (ih _)

theorem length_read_le {n : Nat} {set : Set} {t t' : T} {seen : List Seen}
    (h : d.read n odid set t = some (seen, t')) : seen.length ≤ setHeaderLen + set.records.length := by
  have hheader : setHeaderLen = 4 := rfl
  rcases read_cases h with ⟨kind, -, htell⟩ | ⟨-, -, ⟨tid, rfl⟩ | ⟨tid, template, -, hpos, rfl⟩⟩
  · have hlen := length_tell d odid kind (templatesIn n kind set.records) t
    rw [htell] at hlen
    exact Nat.le_add_left_of_le (hlen.le.trans (length_templatesIn_le n kind set.records))
  · rw [List.length_singleton]
    omega
  · rw [List.length_map]
    exact Nat.le_add_left_of_le (length_recordsIn_le hpos set.records)

theorem length_journal_le {n : Nat} {b : Bytes} {items : List (Result Set)}
    (hframes : Frames setPadding Set.decode b items) {t t' : T} {seen : List Seen}
    (h : d.journal n odid items t = some (seen, t')) : seen.length ≤ b.length := by
  induction hframes generalizing t t' seen with
  | stop =>
    obtain ⟨rfl, -⟩ := Prod.mk.inj (Option.some.inj h)
    exact Nat.zero_le _
  | @ok b set r items hpad hdec _ ih =>
    obtain ⟨-, rfl⟩ := Set.framing.sound hdec
    unfold journal at h
    obtain ⟨seen₁, t₁, seen₂, hread, hjournal, rfl⟩ := journal_cons h
    have hset := length_read_le hread
    have hrest := ih hjournal
    rw [List.length_append, List.length_append, Set.length_encode]
    omega
  | @err b e hpad =>
    obtain ⟨rfl, -⟩ := Prod.mk.inj (Option.some.inj h)
    have hlong : ¬ b.length < setHeaderLen := hpad
    have hheader : setHeaderLen = 4 := rfl
    rw [List.length_singleton]
    omega

end Dictionary

theorem SessionTemplateStore.observeAll_cons {M K : Type} [LruMap M (TemplateKey K) OwnedTemplate] {n : Nat}
    {x : K × Bytes} {stream : List (K × Bytes)} {st st' : SessionTemplateStore M} {observed : List Observed}
    (h : observeAll n (x :: stream) st = some (observed, st')) :
    ∃ o st₁ rest, (dictionary x.1).observe n x.2 st = some (o, st₁) ∧
      observeAll n stream st₁ = some (rest, st') ∧ observed = o :: rest := by
  obtain ⟨⟨o, st₁⟩, hobserve, h⟩ := Option.bind_eq_some_iff.mp h
  obtain ⟨⟨rest, st₂⟩, hrest, h⟩ := Option.bind_eq_some_iff.mp h
  obtain ⟨rfl, rfl⟩ := Prod.mk.inj (Option.some.inj h)
  exact ⟨o, st₁, rest, hobserve, hrest, rfl⟩

end IpfixParser

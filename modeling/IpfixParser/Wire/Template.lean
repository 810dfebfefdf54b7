import IpfixParser.Wire.Message
import IpfixParser.Model.Template
import Mathlib.Data.Nat.Bitwise

/-!
# The wire format of templates

What an exporter writes for field specifiers and for template records of both kinds, and what the
decoders make of it. `TemplateSetKind.decode` is what a template decoder computes once the scratch
buffer is reduced to its size (`TemplateSetKind.decodeInto_eq`); template records are a framed
stream padded by less than their header (`TemplateSetKind.framing`), and `TemplateSetIter` reads its
frames (`TemplateSetIter.readsFrames`).
-/

namespace IpfixParser

open Lib

/-! ### The enterprise bit -/

theorem and_enterpriseBit_eq_zero_iff (w : UInt16) : w &&& enterpriseBit = 0 ↔ w.toNat < 2 ^ 15 := by
  have hbit : enterpriseBit.toNat = 2 ^ 15 := rfl
  have hw := w.toNat_lt
  rw [← UInt16.toNat_inj, UInt16.toNat_and, hbit, Nat.and_two_pow, Nat.testBit_eq_decide_div_mod_eq]
  simp only [UInt16.toNat_zero, Nat.mul_eq_zero, Bool.toNat_eq_zero, decide_eq_false_iff_not]
  omega

theorem toNat_and_not_enterpriseBit (w : UInt16) :
    (w &&& ~~~enterpriseBit).toNat = w.toNat % 2 ^ 15 := by
  have hbit : (~~~enterpriseBit).toNat = 2 ^ 15 - 1 := rfl
  rw [UInt16.toNat_and, hbit, Nat.and_two_pow_sub_one_eq_mod]

theorem toNat_or_enterpriseBit {w : UInt16} (h : w.toNat < 2 ^ 15) :
    (w ||| enterpriseBit).toNat = 2 ^ 15 + w.toNat := by
  have hbit : enterpriseBit.toNat = 2 ^ 15 := rfl
  have hor := Nat.two_pow_add_eq_or_of_lt h 1
  rw [Nat.mul_one] at hor
  rw [UInt16.toNat_or, hbit, Nat.or_comm, hor]

theorem and_not_enterpriseBit {w : UInt16} (h : w.toNat < 2 ^ 15) : w &&& ~~~enterpriseBit = w := by
  rw [← UInt16.toNat_inj, toNat_and_not_enterpriseBit, Nat.mod_eq_of_lt h]

theorem and_not_or_enterpriseBit {w : UInt16} (h : ¬ w.toNat < 2 ^ 15) :
    (w &&& ~~~enterpriseBit) ||| enterpriseBit = w := by
  have hw := w.toNat_lt
  have hid := toNat_and_not_enterpriseBit w
  rw [← UInt16.toNat_inj, toNat_or_enterpriseBit (by omega)]
  omega

theorem or_and_not_enterpriseBit {w : UInt16} (h : w.toNat < 2 ^ 15) :
    (w ||| enterpriseBit) &&& ~~~enterpriseBit = w := by
  rw [← UInt16.toNat_inj, toNat_and_not_enterpriseBit, toNat_or_enterpriseBit h]
  omega

/-! ### Field specifiers -/

/-- The top bit of an IE id is not part of it. -/
def FieldSpecifier.WellFormed (f : FieldSpecifier) : Prop := f.informationElementId.toNat < 2 ^ 15

/-- What an exporter writes for a field specifier: 4 bytes, or 8 with the enterprise bit set. -/
def FieldSpecifier.encode (f : FieldSpecifier) : Bytes :=
  match f.enterpriseNumber with
  | none => u16ToBe f.informationElementId ++ u16ToBe f.fieldLength
  | some en => u16ToBe (f.informationElementId ||| enterpriseBit) ++
      (u16ToBe f.fieldLength ++ u32ToBe en)

theorem readU16_header {b : Bytes} {n i : Nat} (hn : n ≤ b.length) (hi : i + 2 ≤ n) :
    readU16 ((b.take n).drop i) = .ok (u16At b i) := by
  have hlen : 2 ≤ ((b.take n).drop i).length := by
    rw [List.length_drop, List.length_take]
    omega
  rw [readU16_eq hlen, u16At_drop, u16At_take (by omega), Nat.add_zero]

theorem sliceFrom_header {ε : Type} {b : Bytes} {n i : Nat} (hn : n ≤ b.length) (hi : i + 2 ≤ n) :
    (sliceFrom (b.take n) i : Outcome ε Bytes) = .ok ((b.take n).drop i) := by
  apply sliceFrom_eq
  rw [List.length_take]
  omega

theorem FieldSpecifier.decode_eq (b : Bytes) :
    decode b =
      if b.length < 4 then .err .unexpectedEof
      else if u16At b 0 &&& enterpriseBit = 0 then
        .ok (⟨u16At b 0 &&& ~~~enterpriseBit, none, u16At b 2⟩, b.drop 4)
      else if b.length < 8 then .err .unexpectedEof
      else .ok (⟨u16At b 0 &&& ~~~enterpriseBit, some (u32At b 4), u16At b 2⟩, b.drop 8) := by
  by_cases h4 : b.length < 4
  · simp [decode, split_short h4, h4]
  have hn : 4 ≤ b.length := Nat.le_of_not_lt h4
  simp only [decode, split_eq hn, Outcome.ok_bind, sliceFrom_header hn (i := 0) (by decide),
    sliceFrom_header hn (i := 2) (by decide), readU16_header hn (i := 0) (by decide),
    readU16_header hn (i := 2) (by decide), if_neg h4]
  by_cases hbit : u16At b 0 &&& enterpriseBit = 0
  · simp [hbit]
  by_cases h8 : b.length < 8
  · have hrest : (b.drop 4).length < 4 := by
      rw [List.length_drop]
      omega
    simp [hbit, h8, split_short hrest]
  · have hrest : 4 ≤ (b.drop 4).length := by
      rw [List.length_drop]
      omega
    have hen : 4 ≤ ((b.drop 4).take 4).length := by
      rw [List.length_take]
      omega
    simp [hbit, h8, split_eq hrest, readU32_eq hen, u32At_take, u32At_drop]

theorem FieldSpecifier.decode_ne_panic (b : Bytes) : decode b ≠ .panic := by
  rw [decode_eq]
  split_ifs <;> simp

theorem FieldSpecifier.isCode : IsCode encode WellFormed decode where
  sound := by
    intro b f r h
    rw [decode_eq] at h
    split_ifs at h with h4 hbit h8
    · obtain ⟨rfl, rfl⟩ : _ = f ∧ _ = r := by simpa using h
      have hplain := (and_enterpriseBit_eq_zero_iff _).mp hbit
      have hid := and_not_enterpriseBit hplain
      refine ⟨by rwa [WellFormed, hid], ?_⟩
      simp only [encode, hid, List.append_assoc]
      exact (words_append_drop (Nat.le_of_not_lt h4)).symm
    · obtain ⟨rfl, rfl⟩ : _ = f ∧ _ = r := by simpa using h
      have hset : ¬ (u16At b 0).toNat < 2 ^ 15 := fun hlt =>
        hbit ((and_enterpriseBit_eq_zero_iff _).mpr hlt)
      have hword := and_not_or_enterpriseBit hset
      refine ⟨?_, ?_⟩
      · rw [WellFormed, toNat_and_not_enterpriseBit]
        exact Nat.mod_lt _ (by decide)
      have hrest : u32ToBe (u32At b 4) ++ b.drop 8 = b.drop 4 := by
        rw [u32ToBe_u32At (by omega), ← List.drop_drop (i := 4) (j := 4), List.take_append_drop]
      simp only [encode, hword, List.append_assoc, hrest]
      exact (words_append_drop (Nat.le_of_not_lt h4)).symm
  complete := by
    rintro ⟨id, en, len⟩ hf r
    have hid : id.toNat < 2 ^ 15 := hf
    rw [decode_eq]
    cases en with
    | none =>
      have hword := and_not_enterpriseBit hid
      have hlong : ¬ (encode ⟨id, none, len⟩ ++ r).length < 4 := by
        simp [encode]
        omega
      have hat0 : u16At (encode ⟨id, none, len⟩ ++ r) 0 = id := by simp [encode]
      have hat2 : u16At (encode ⟨id, none, len⟩ ++ r) 2 = len := by
        simp [encode, u16At_append_right]
      have hrest : (encode ⟨id, none, len⟩ ++ r).drop 4 = r := List.drop_left' (by simp [encode])
      rw [if_neg hlong, hat0, if_pos ((and_enterpriseBit_eq_zero_iff id).mpr hid), hword, hat2, hrest]
    | some en =>
      have hset : ¬ (id ||| enterpriseBit) &&& enterpriseBit = 0 := by
        rw [and_enterpriseBit_eq_zero_iff, toNat_or_enterpriseBit hid]
        omega
      have hword := or_and_not_enterpriseBit hid
      have hlong : 8 ≤ (encode ⟨id, some en, len⟩ ++ r).length := by
        simp [encode]
        omega
      have hat0 : u16At (encode ⟨id, some en, len⟩ ++ r) 0 = id ||| enterpriseBit := by
        simp [encode]
      have hat2 : u16At (encode ⟨id, some en, len⟩ ++ r) 2 = len := by
        simp [encode, u16At_append_right]
      have hat4 : u32At (encode ⟨id, some en, len⟩ ++ r) 4 = en := by
        simp [encode, u32At_append_right]
      have hrest : (encode ⟨id, some en, len⟩ ++ r).drop 8 = r := List.drop_left' (by simp [encode])
      rw [if_neg (by omega), hat0, if_neg hset, if_neg (by omega), hword, hat2, hat4, hrest]

/-! ### Template headers -/

/-- What comes before the field specifiers of a template record. -/
structure TemplateHeader where
  id : TemplateId
  scopeFieldCount : UInt16
  fieldCount : Nat
  deriving Repr, DecidableEq

namespace TemplateSetKind

/-- The scope field counts of each kind: none for templates, some but no more than there are fields
for options templates. -/
def ScopeOk : TemplateSetKind → UInt16 → Nat → Prop
  | template, scopeFieldCount, _ => scopeFieldCount = 0
  | optionsTemplate, scopeFieldCount, fieldCount =>
    1 ≤ scopeFieldCount.toNat ∧ scopeFieldCount.toNat ≤ fieldCount

instance (kind : TemplateSetKind) (scopeFieldCount : UInt16) (fieldCount : Nat) :
    Decidable (kind.ScopeOk scopeFieldCount fieldCount) :=
  match kind with
  | template => inferInstanceAs (Decidable (scopeFieldCount = 0))
  | optionsTemplate => inferInstanceAs (Decidable (_ ∧ _))

/-- The scope field count as an exporter writes it. -/
def encodeScope : TemplateSetKind → UInt16 → Bytes
  | template, _ => []
  | optionsTemplate, scopeFieldCount => u16ToBe scopeFieldCount

/-- What an exporter writes for the header of a template record. -/
def encodeHeader (kind : TemplateSetKind) (h : TemplateHeader) : Bytes :=
  u16ToBe h.id ++ (u16ToBe (UInt16.ofNat h.fieldCount) ++ kind.encodeScope h.scopeFieldCount)

@[simp] theorem length_encodeHeader (kind : TemplateSetKind) (h : TemplateHeader) :
    (kind.encodeHeader h).length = kind.minHeader := by
  cases kind <;> simp [encodeHeader, encodeScope, minHeader]

/-- A header that a scratch buffer of `n` specifiers has room for. -/
structure HeaderOk (kind : TemplateSetKind) (n : Nat) (h : TemplateHeader) : Prop where
  pos : 1 ≤ h.fieldCount
  fits : h.fieldCount ≤ n
  u16 : h.fieldCount ≤ 65535
  scope : kind.ScopeOk h.scopeFieldCount h.fieldCount

/-- The decoders of both kinds up to their loops. -/
def decodeHeader (kind : TemplateSetKind) (n : Nat) (b : Bytes) :
    Outcome Error (TemplateHeader × Bytes) :=
  match kind with
  | template => do
    let (id, fieldCount, rest) ← TemplateRecord.decodeHeader b n
    return (⟨id, 0, fieldCount⟩, rest)
  | optionsTemplate => do
    let (id, scopeFieldCount, fieldCount, rest) ← TemplateRecord.decodeOptionsHeader b n
    return (⟨id, scopeFieldCount, fieldCount⟩, rest)

/-- The header found in a buffer. -/
def headerOf (b : Bytes) : TemplateSetKind → TemplateHeader
  | template => ⟨u16At b 0, 0, (u16At b 2).toNat⟩
  | optionsTemplate => ⟨u16At b 0, u16At b 4, (u16At b 2).toNat⟩

theorem decodeHeader_of_short {kind : TemplateSetKind} {n : Nat} {b : Bytes}
    (h : b.length < kind.minHeader) : kind.decodeHeader n b = .err .unexpectedEof := by
  cases kind with
  | template => simp [decodeHeader, TemplateRecord.decodeHeader, split_short (n := 4) h]
  | optionsTemplate => simp [decodeHeader, TemplateRecord.decodeOptionsHeader, split_short (n := 6) h]

theorem decodeHeader_eq {kind : TemplateSetKind} {b : Bytes} (hlen : kind.minHeader ≤ b.length)
    (n : Nat) :
    kind.decodeHeader n b =
      let h := headerOf b kind
      if h.fieldCount = 0 ∨ ¬ kind.ScopeOk h.scopeFieldCount h.fieldCount then .err .invalidLength
      else if n < h.fieldCount then .err .fieldBufferTooSmall
      else .ok (h, b.drop kind.minHeader) := by
  cases kind with
  | template =>
    have h4 : 4 ≤ b.length := hlen
    simp only [decodeHeader, TemplateRecord.decodeHeader, split_eq h4, Outcome.ok_bind,
      sliceFrom_header h4 (i := 0) (by decide), sliceFrom_header h4 (i := 2) (by decide),
      readU16_header h4 (i := 0) (by decide), readU16_header h4 (i := 2) (by decide)]
    show (_ : Outcome Error (TemplateHeader × Bytes)) =
      if (u16At b 2).toNat = 0 ∨ ¬ (0 : UInt16) = 0 then .err .invalidLength
      else if n < (u16At b 2).toNat then .err .fieldBufferTooSmall
      else .ok (⟨u16At b 0, 0, (u16At b 2).toNat⟩, b.drop 4)
    simp only [not_true_eq_false, or_false]
    split_ifs <;> rfl
  | optionsTemplate =>
    have h6 : 6 ≤ b.length := hlen
    have hscope : u16At b 4 = 0 ↔ (u16At b 4).toNat < 1 := by
      rw [← UInt16.toNat_inj, UInt16.toNat_zero]
      omega
    simp only [decodeHeader, TemplateRecord.decodeOptionsHeader, split_eq h6, Outcome.ok_bind,
      sliceFrom_header h6 (i := 0) (by decide), sliceFrom_header h6 (i := 2) (by decide),
      sliceFrom_header h6 (i := 4) (by decide), readU16_header h6 (i := 0) (by decide),
      readU16_header h6 (i := 2) (by decide), readU16_header h6 (i := 4) (by decide)]
    show (_ : Outcome Error (TemplateHeader × Bytes)) = if (u16At b 2).toNat = 0 ∨
        ¬ (1 ≤ (u16At b 4).toNat ∧ (u16At b 4).toNat ≤ (u16At b 2).toNat) then .err .invalidLength
      else if n < (u16At b 2).toNat then .err .fieldBufferTooSmall
      else .ok (⟨u16At b 0, u16At b 4, (u16At b 2).toNat⟩, b.drop 6)
    simp only [hscope]
    split_ifs <;> first | rfl | omega

theorem decodeHeader_of_ok {kind : TemplateSetKind} {n : Nat} {b : Bytes}
    (hlen : kind.minHeader ≤ b.length) (h : kind.HeaderOk n (headerOf b kind)) :
    kind.decodeHeader n b = .ok (headerOf b kind, b.drop kind.minHeader) := by
  obtain ⟨hpos, hfits, -, hscope⟩ := h
  rw [decodeHeader_eq hlen]
  exact (if_neg (by simp [hscope]; omega)).trans (if_neg (Nat.not_lt_of_le hfits))

theorem headerOf_u16 (b : Bytes) (kind : TemplateSetKind) : (headerOf b kind).fieldCount ≤ 65535 := by
  have hword := (u16At b 2).toNat_lt
  cases kind <;> simp only [headerOf] <;> omega

theorem decodeHeader_of_not_ok {kind : TemplateSetKind} {n : Nat} {b : Bytes}
    (hlen : kind.minHeader ≤ b.length) (h : ¬ kind.HeaderOk n (headerOf b kind)) :
    ∃ e, kind.decodeHeader n b = .err e := by
  rw [decodeHeader_eq hlen]
  simp only
  split_ifs with hbad hbig
  · exact ⟨_, rfl⟩
  · exact ⟨_, rfl⟩
  · push Not at hbad
    exact absurd ⟨Nat.pos_of_ne_zero hbad.1, Nat.le_of_not_lt hbig, headerOf_u16 b kind, hbad.2⟩ h

theorem decodeHeader_ne_panic (kind : TemplateSetKind) (n : Nat) (b : Bytes) :
    kind.decodeHeader n b ≠ .panic := by
  by_cases hlen : b.length < kind.minHeader
  · simp [decodeHeader_of_short hlen]
  by_cases h : kind.HeaderOk n (headerOf b kind)
  · simp [decodeHeader_of_ok (Nat.le_of_not_lt hlen) h]
  · obtain ⟨e, he⟩ := decodeHeader_of_not_ok (Nat.le_of_not_lt hlen) h
    simp [he]

theorem headerOf_encodeHeader {kind : TemplateSetKind} {n : Nat} {h : TemplateHeader}
    (hok : kind.HeaderOk n h) (r : Bytes) : headerOf (kind.encodeHeader h ++ r) kind = h := by
  obtain ⟨id, scopeFieldCount, fieldCount⟩ := h
  have hcount : fieldCount < UInt16.size := by
    have hu16 : fieldCount ≤ 65535 := hok.u16
    simp only [UInt16.size]
    omega
  have hword : (UInt16.ofNat fieldCount).toNat = fieldCount := UInt16.toNat_ofNat_of_lt hcount
  cases kind with
  | template =>
    obtain rfl : scopeFieldCount = 0 := hok.scope
    simp [headerOf, encodeHeader, encodeScope, u16At_append_right, hword]
  | optionsTemplate => simp [headerOf, encodeHeader, encodeScope, u16At_append_right, hword]

theorem encodeHeader_headerOf {kind : TemplateSetKind} {b : Bytes} (h : kind.minHeader ≤ b.length) :
    b = kind.encodeHeader (headerOf b kind) ++ b.drop kind.minHeader := by
  cases kind with
  | template =>
    simp only [encodeHeader, headerOf, encodeScope, minHeader, UInt16.ofNat_toNat, List.append_nil,
      List.append_assoc]
    exact (words_append_drop h).symm
  | optionsTemplate =>
    have h6 : 6 ≤ b.length := h
    have hscope : u16ToBe (u16At b 4) ++ b.drop 6 = b.drop 4 := by
      rw [u16ToBe_u16At (by omega), ← List.drop_drop (i := 2) (j := 4), List.take_append_drop]
    simp only [encodeHeader, headerOf, encodeScope, minHeader, UInt16.ofNat_toNat, List.append_assoc,
      hscope]
    exact (words_append_drop (by omega)).symm

theorem header_isCode (kind : TemplateSetKind) (n : Nat) :
    IsCode kind.encodeHeader (kind.HeaderOk n) (kind.decodeHeader n) where
  sound := by
    intro b h r hdec
    by_cases hlen : b.length < kind.minHeader
    · simp [decodeHeader_of_short hlen] at hdec
    by_cases hok : kind.HeaderOk n (headerOf b kind)
    · rw [decodeHeader_of_ok (Nat.le_of_not_lt hlen) hok] at hdec
      obtain ⟨rfl, rfl⟩ : _ = h ∧ _ = r := by simpa using hdec
      exact ⟨hok, encodeHeader_headerOf (Nat.le_of_not_lt hlen)⟩
    · obtain ⟨e, he⟩ := decodeHeader_of_not_ok (Nat.le_of_not_lt hlen) hok
      simp [he] at hdec
  complete := by
    intro h hok r
    have hof := headerOf_encodeHeader hok r
    have hlen : kind.minHeader ≤ (kind.encodeHeader h ++ r).length := by
      rw [List.length_append, length_encodeHeader]
      omega
    have hok' : kind.HeaderOk n (headerOf (kind.encodeHeader h ++ r) kind) := by rwa [hof]
    rw [decodeHeader_of_ok hlen hok', hof, List.drop_left' (length_encodeHeader kind h)]

/-! ### Template records -/

/-- What an exporter writes for a template record. -/
def encode (kind : TemplateSetKind) (t : TemplateRecord) : Bytes :=
  kind.encodeHeader ⟨t.id, t.scopeFieldCount, t.fields.length⟩ ++ t.fields.flatMap FieldSpecifier.encode

/-- A template record that a scratch buffer of `n` specifiers has room for. -/
structure Valid (kind : TemplateSetKind) (n : Nat) (t : TemplateRecord) : Prop where
  header : kind.HeaderOk n ⟨t.id, t.scopeFieldCount, t.fields.length⟩
  fields : ∀ f ∈ t.fields, f.WellFormed

/-- Fewer bytes than a template header: padding. -/
def padding (kind : TemplateSetKind) (b : Bytes) : Prop := b.length < kind.minHeader

/-- The specifiers of a record, as many as its header says. -/
def decodeFieldList (count : Nat) : Decoder Error (List FieldSpecifier) UInt8 :=
  decodeAll (fun _ => FieldSpecifier.decode) (List.range count)

/-- What both template decoders compute with a scratch buffer of `n` specifiers. -/
def decode (kind : TemplateSetKind) (n : Nat) : Decoder Error TemplateRecord UInt8 := fun b => do
  let (h, rest) ← kind.decodeHeader n b
  let (fields, rest') ← decodeFieldList h.fieldCount rest
  return (⟨h.id, h.scopeFieldCount, fields⟩, rest')

theorem fieldList_isCode (count : Nat) :
    IsCode (fun fs => fs.flatMap FieldSpecifier.encode)
      (List.Forall₂ (fun _ f => FieldSpecifier.WellFormed f) (List.range count))
      (decodeFieldList count) :=
  IsCode.all (fun _ => FieldSpecifier.isCode) _

theorem decode_ne_panic (kind : TemplateSetKind) (n : Nat) (b : Bytes) : kind.decode n b ≠ .panic := by
  refine Outcome.bind_ne_panic (kind.decodeHeader_ne_panic n b) fun x _ => ?_
  refine Outcome.bind_ne_panic ?_ fun y _ => by simp
  exact decodeAll_ne_panic (fun _ => FieldSpecifier.decode_ne_panic) _ _

/-- Template records are a framed stream. -/
theorem framing (kind : TemplateSetKind) (n : Nat) :
    Framing kind.encode (kind.Valid n) kind.padding (kind.decode n) where
  sound := by
    intro b t r h
    obtain ⟨⟨hd, rest⟩, hhd, h⟩ := Outcome.bind_eq_ok.mp h
    obtain ⟨⟨fields, rest'⟩, hfields, h⟩ := Outcome.bind_eq_ok.mp h
    obtain ⟨rfl, rfl⟩ : (⟨hd.id, hd.scopeFieldCount, fields⟩ : TemplateRecord) = t ∧ rest' = r := by
      simpa using h
    obtain ⟨hok, rfl⟩ := (kind.header_isCode n).sound hhd
    obtain ⟨hall, rfl⟩ := (fieldList_isCode hd.fieldCount).sound hfields
    have hcount : fields.length = hd.fieldCount := by simpa using hall.length_eq.symm
    refine ⟨⟨by rwa [hcount], fun f hf => ?_⟩, ?_⟩
    · obtain ⟨i, hi, rfl⟩ := List.getElem_of_mem hf
      exact hall.get (by simpa [hcount] using hi) hi
    · rw [encode, hcount, List.append_assoc]
  complete := by
    intro t ht r
    have hall : List.Forall₂ (fun _ f => FieldSpecifier.WellFormed f) (List.range t.fields.length)
        t.fields :=
      List.forall₂_iff_get.mpr ⟨by simp, fun i _ hi => ht.fields _ (List.get_mem _ _)⟩
    simp only [decode, encode, List.append_assoc, (kind.header_isCode n).complete ht.header,
      Outcome.ok_bind, (fieldList_isCode t.fields.length).complete hall, Outcome.pure_eq]
  not_stop := by
    intro t _ r
    rw [padding, encode, List.append_assoc, List.length_append, length_encodeHeader]
    omega
  ne_nil := by
    intro t _ h
    have hlen := congrArg List.length h
    cases kind <;> simp [encode, minHeader] at hlen
  ne_panic := kind.decode_ne_panic n

end TemplateSetKind

/-! ### The scratch buffer -/

theorem TemplateRecord.decodeFields_of_ok {slots : List FieldSpecifier} {is : List Nat} {b r : Bytes}
    {specs : List FieldSpecifier} (hlen : is.length = slots.length)
    (h : decodeAll (fun _ => FieldSpecifier.decode) is b = .ok (specs, r)) :
    decodeFields slots b = .ok (.ok r, specs) := by
  induction slots generalizing is b specs with
  | nil =>
    obtain rfl := List.length_eq_zero_iff.mp hlen
    obtain ⟨rfl, rfl⟩ : [] = specs ∧ b = r := by simpa [decodeAll] using h
    rfl
  | cons slot slots ih =>
    obtain ⟨i, is, rfl⟩ := List.exists_of_length_succ is hlen
    obtain ⟨⟨spec, after⟩, hspec, h⟩ := Outcome.bind_eq_ok.mp h
    obtain ⟨⟨specs', r'⟩, hspecs, h⟩ := Outcome.bind_eq_ok.mp h
    obtain ⟨rfl, rfl⟩ : spec :: specs' = specs ∧ r' = r := by simpa using h
    simp [decodeFields, hspec, ih (by simpa using hlen) hspecs]

theorem TemplateRecord.decodeFields_of_err {slots : List FieldSpecifier} {is : List Nat} {b : Bytes}
    {e : Error} (hlen : is.length = slots.length)
    (h : decodeAll (fun _ => FieldSpecifier.decode) is b = .err e) :
    ∃ slots', decodeFields slots b = .ok (.error e, slots') ∧ slots'.length = slots.length := by
  induction slots generalizing is b with
  | nil =>
    obtain rfl := List.length_eq_zero_iff.mp hlen
    simp [decodeAll] at h
  | cons slot slots ih =>
    obtain ⟨i, is, rfl⟩ := List.exists_of_length_succ is hlen
    rcases Outcome.bind_eq_err.mp h with hspec | ⟨⟨spec, after⟩, hspec, h⟩
    · exact ⟨slot :: slots, by simp [decodeFields, hspec], rfl⟩
    · rcases Outcome.bind_eq_err.mp h with hspecs | ⟨x, _, h⟩
      · obtain ⟨slots', hslots', hlen'⟩ := ih (by simpa using hlen) hspecs
        exact ⟨spec :: slots', by simp [decodeFields, hspec, hslots'], by simp [hlen']⟩
      · simp at h

namespace TemplateSetKind

variable {kind : TemplateSetKind} {b r : Bytes} {fieldsBuf : List FieldSpecifier}

/-- Both decoders end alike. -/
theorem decodeInto_eq (kind : TemplateSetKind) (b : Bytes) (fieldsBuf : List FieldSpecifier) :
    kind.decodeInto b fieldsBuf = (do
      match ← (kind.decodeHeader fieldsBuf.length b).attempt with
      | .ok (h, rest) => TemplateRecord.decodeBody h.id h.scopeFieldCount h.fieldCount rest fieldsBuf
      | .error e => return (.error e, fieldsBuf)) := by
  cases kind with
  | template =>
    simp only [decodeInto, TemplateRecord.decodeInto, decodeHeader]
    cases TemplateRecord.decodeHeader b fieldsBuf.length <;> rfl
  | optionsTemplate =>
    simp only [decodeInto, TemplateRecord.decodeOptionsInto, decodeHeader]
    cases TemplateRecord.decodeOptionsHeader b fieldsBuf.length <;> rfl

theorem decodeInto_of_ok {t : TemplateRecord} (h : kind.decode fieldsBuf.length b = .ok (t, r)) :
    ∃ fieldsBuf', kind.decodeInto b fieldsBuf = .ok (.ok (t, r), fieldsBuf') ∧
      fieldsBuf'.length = fieldsBuf.length := by
  obtain ⟨⟨hd, rest⟩, hhd, h⟩ := Outcome.bind_eq_ok.mp h
  obtain ⟨⟨fields, rest'⟩, hfields, h⟩ := Outcome.bind_eq_ok.mp h
  obtain ⟨rfl, rfl⟩ : (⟨hd.id, hd.scopeFieldCount, fields⟩ : TemplateRecord) = t ∧ rest' = r := by
    simpa using h
  have hfits := ((kind.header_isCode _).sound hhd).1.fits
  have hcount : fields.length = hd.fieldCount := by
    simpa using ((fieldList_isCode hd.fieldCount).sound hfields).1.length_eq.symm
  have hslots : (fieldsBuf.take hd.fieldCount).length = hd.fieldCount := by
    rw [List.length_take]
    omega
  have hloop : TemplateRecord.decodeFields (fieldsBuf.take hd.fieldCount) rest =
      .ok (.ok rest', fields) :=
    TemplateRecord.decodeFields_of_ok (by rw [List.length_range, hslots]) hfields
  refine ⟨fields ++ fieldsBuf.drop hd.fieldCount, ?_, by simp; omega⟩
  simp only [decodeInto_eq, hhd, Outcome.attempt_ok, Outcome.ok_bind, TemplateRecord.decodeBody,
    sliceTo_eq hfits, hloop]
  rw [sliceTo_eq (by simp [hcount]), List.take_left' hcount]
  rfl

theorem decodeInto_of_err {e : Error} (h : kind.decode fieldsBuf.length b = .err e) :
    ∃ fieldsBuf', kind.decodeInto b fieldsBuf = .ok (.error e, fieldsBuf') ∧
      fieldsBuf'.length = fieldsBuf.length := by
  rcases Outcome.bind_eq_err.mp h with hhd | ⟨⟨hd, rest⟩, hhd, h⟩
  · exact ⟨fieldsBuf, by simp [decodeInto_eq, hhd], rfl⟩
  rcases Outcome.bind_eq_err.mp h with hfields | ⟨x, _, h⟩
  · have hfits := ((kind.header_isCode _).sound hhd).1.fits
    have hslots : (fieldsBuf.take hd.fieldCount).length = hd.fieldCount := by
      rw [List.length_take]
      omega
    obtain ⟨slots', hslots', hlen⟩ :=
      TemplateRecord.decodeFields_of_err (by rw [List.length_range, hslots]) hfields
    refine ⟨slots' ++ fieldsBuf.drop hd.fieldCount, ?_, by simp [hlen]; omega⟩
    simp [decodeInto_eq, hhd, TemplateRecord.decodeBody, sliceTo_eq hfits, hslots']
  · simp at h

/-- The decoders return what `decode` computes, whatever the scratch buffer held before. -/
theorem decodeInto_ok_iff {t : TemplateRecord} :
    (∃ fieldsBuf', kind.decodeInto b fieldsBuf = .ok (.ok (t, r), fieldsBuf')) ↔
      kind.decode fieldsBuf.length b = .ok (t, r) := by
  constructor
  · rintro ⟨fieldsBuf', h⟩
    cases hdec : kind.decode fieldsBuf.length b with
    | ok x =>
      obtain ⟨t', r'⟩ := x
      obtain ⟨_, h', _⟩ := decodeInto_of_ok hdec
      rw [h] at h'
      cases h'
      rfl
    | err e =>
      obtain ⟨_, h', _⟩ := decodeInto_of_err hdec
      simp [h] at h'
    | panic => exact absurd hdec (kind.decode_ne_panic _ b)
  · intro h
    obtain ⟨fieldsBuf', h', _⟩ := decodeInto_of_ok h
    exact ⟨fieldsBuf', h'⟩

theorem decodeInto_ne_panic (kind : TemplateSetKind) (b : Bytes) (fieldsBuf : List FieldSpecifier) :
    kind.decodeInto b fieldsBuf ≠ .panic := by
  cases hdec : kind.decode fieldsBuf.length b with
  | ok x =>
    obtain ⟨t, r⟩ := x
    obtain ⟨_, h, _⟩ := decodeInto_of_ok hdec
    simp [h]
  | err e =>
    obtain ⟨_, h, _⟩ := decodeInto_of_err hdec
    simp [h]
  | panic => exact absurd hdec (kind.decode_ne_panic _ b)

end TemplateSetKind

/-- `TemplateSetIter` reads the template records of its buffer. -/
theorem TemplateSetIter.readsFrames (kind : TemplateSetKind) (n : Nat) :
    ReadsFrames kind.padding (kind.decode n) TemplateSetIter.next
      (fun it b => it.buf = b ∧ it.fieldsBuf.length = n ∧ it.kind = kind ∧ it.done = false)
      (fun it => it.done = true ∨ it.buf.length < it.kind.minHeader) where
  onDone := by
    rintro ⟨b, fieldsBuf, k, done⟩ h
    refine ⟨_, ?_, h⟩
    rcases h with rfl | h
    · rfl
    · have hshort : b.length < k.minHeader := h
      cases done <;> simp [next, hshort]
  onStop := by
    rintro ⟨b, fieldsBuf, k, done⟩ _ ⟨rfl, rfl, rfl, rfl⟩ hpad
    have hshort : b.length < k.minHeader := hpad
    exact ⟨⟨b, fieldsBuf, k, false⟩, by simp [next, hshort], .inr hshort⟩
  onOk := by
    rintro ⟨b, fieldsBuf, k, done⟩ _ t r ⟨rfl, rfl, rfl, rfl⟩ hpad hdec
    have hlong : ¬ b.length < k.minHeader := hpad
    obtain ⟨fieldsBuf', hinto, hlen⟩ := TemplateSetKind.decodeInto_of_ok hdec
    exact ⟨⟨r, fieldsBuf', k, false⟩, by simp [next, hlong, hinto], rfl, hlen, rfl, rfl⟩
  onErr := by
    rintro ⟨b, fieldsBuf, k, done⟩ _ e ⟨rfl, rfl, rfl, rfl⟩ hpad hdec
    have hlong : ¬ b.length < k.minHeader := hpad
    obtain ⟨fieldsBuf', hinto, hlen⟩ := TemplateSetKind.decodeInto_of_err hdec
    exact ⟨⟨[], fieldsBuf', k, true⟩, by simp [next, hlong, hinto], .inl rfl⟩

end IpfixParser

import IpfixParser.Wire.Template
import IpfixParser.Model.Record

/-!
# The wire format of data records

What an exporter writes for a field value: the value itself for a field of fixed length, and the
value behind a 1-byte or a 3-byte length for one of variable length. The records of a template are a
framed stream padded by less than the smallest record (`TemplateRef.framing`), and `FieldIter` cuts a
record where its fields were put together (`FieldIter.yields`).
-/

namespace IpfixParser

open Lib

/-! ### Field values -/

/-- A field value with the way it is written. -/
inductive Encoded where
  | fixed (data : Bytes)
  | short (data : Bytes)
  | long (data : Bytes)
  deriving Repr, DecidableEq

namespace Encoded

/-- The value. -/
def data : Encoded → Bytes
  | fixed data => data
  | short data => data
  | long data => data

/-- What an exporter writes: the 1-byte prefix is the length, the 3-byte prefix is 255 and the
length. -/
def bytes : Encoded → Bytes
  | fixed data => data
  | short data => UInt8.ofNat data.length :: data
  | long data => 255 :: (u16ToBe (UInt16.ofNat data.length) ++ data)

/-- The values a field of a template may have, and the ways they may be written. -/
def Fits (f : FieldSpecifier) : Encoded → Prop
  | fixed data => f.fieldLength ≠ variableLength ∧ data.length = f.fieldLength.toNat
  | short data => f.fieldLength = variableLength ∧ data.length < 255
  | long data => f.fieldLength = variableLength ∧ data.length ≤ 65535

/-- The field value `FieldIter` makes of it. -/
def value (f : FieldSpecifier) (e : Encoded) : FieldValue :=
  ⟨f.informationElementId, f.enterpriseNumber, e.data⟩

end Encoded

/-- Fewest bytes a field can take. -/
def FieldSpecifier.minSize (f : FieldSpecifier) : Nat :=
  if f.fieldLength = variableLength then 1 else f.fieldLength.toNat

theorem Encoded.minSize_le {f : FieldSpecifier} {e : Encoded} (h : e.Fits f) :
    f.minSize ≤ e.bytes.length := by
  cases e with
  | fixed data =>
    obtain ⟨hvar, hlen⟩ := h
    simp [FieldSpecifier.minSize, hvar, bytes, hlen]
  | short data => simp [FieldSpecifier.minSize, h.1, bytes]
  | long data => simp [FieldSpecifier.minSize, h.1, bytes]

/-- `decode_variable_length`, telling how the value was written. -/
def cutVariable : Bytes → Outcome Error (Encoded × Bytes)
  | [] => .err .unexpectedEof
  | first :: rest =>
    if first < 255 then do
      let (data, r) ← (split rest first.toNat).mapErr fun _ => .variableLengthOverflow
      return (.short data, r)
    else do
      let lenBytes ← .okOr .unexpectedEof (firstChunk 2 rest)
      let (data, r) ← (split (rest.drop 2) (u16FromBe lenBytes).toNat).mapErr fun _ =>
        .variableLengthOverflow
      return (.long data, r)

/-- `FieldSpecifier.cut`, telling how the value was written. -/
def FieldSpecifier.cutEncoded (f : FieldSpecifier) (b : Bytes) : Outcome Error (Encoded × Bytes) :=
  if f.fieldLength = variableLength then cutVariable b
  else do
    let (data, r) ← split b f.fieldLength.toNat
    return (.fixed data, r)

theorem split_ne_panic (b : Bytes) (n : Nat) : split b n ≠ .panic := by
  by_cases h : n ≤ b.length
  · simp [split_eq h]
  · simp [split_short (Nat.lt_of_not_le h)]

theorem split_isCode (n : Nat) : IsCode id (fun data : Bytes => data.length = n) (split · n) where
  sound := by
    intro b data r h
    by_cases hn : n ≤ b.length
    · simp only [split_eq hn, Outcome.ok.injEq, Prod.mk.injEq] at h
      obtain ⟨rfl, rfl⟩ := h
      exact ⟨by rw [List.length_take]; omega, (List.take_append_drop n b).symm⟩
    · simp [split_short (Nat.lt_of_not_le hn)] at h
  complete := by
    rintro data rfl r
    rw [id_eq, split_eq (by simp), List.take_left, List.drop_left]

theorem split_append {data : Bytes} (r : Bytes) {n : Nat} (h : data.length = n) :
    split (data ++ r) n = .ok (data, r) := (split_isCode n).complete h r

theorem forget_encoded (x : Outcome Error (Bytes × Bytes)) {g : Bytes → Encoded}
    (hg : ∀ d, (g d).data = d) :
    ((x >>= fun y => pure (g y.1, y.2)) >>= fun y : Encoded × Bytes => pure (y.1.data, y.2)) = x := by
  cases x <;> simp [hg]

theorem FieldSpecifier.cut_eq (f : FieldSpecifier) (b : Bytes) :
    f.cut b = (do let (e, r) ← f.cutEncoded b; return (e.data, r)) := by
  rw [cut, cutEncoded]
  by_cases hvar : f.fieldLength = variableLength
  · rw [if_pos hvar, if_pos hvar]
    cases b with
    | nil => rfl
    | cons first rest =>
      rw [decodeVariableLength, cutVariable]
      by_cases hfirst : first < 255
      · simp only [hfirst, if_true, Outcome.pure_eq, Outcome.ok_bind]
        exact (forget_encoded _ fun _ => rfl).symm
      · simp only [hfirst, if_false]
        by_cases h2 : 2 ≤ rest.length
        · simp only [firstChunk_eq h2, Outcome.okOr_some, Outcome.ok_bind, sliceFrom_eq h2,
            Outcome.pure_eq]
          exact (forget_encoded _ fun _ => rfl).symm
        · simp [firstChunk_none (Nat.lt_of_not_le h2)]
  · rw [if_neg hvar, if_neg hvar]
    exact (forget_encoded _ fun _ => rfl).symm

theorem cutVariable_ne_panic (b : Bytes) : cutVariable b ≠ .panic := by
  have hsplit : ∀ (b : Bytes) (n : Nat) (e : Error), ((split b n).mapErr fun _ => e) ≠ .panic :=
    fun b n e h => split_ne_panic b n (Outcome.mapErr_eq_panic.mp h)
  cases b with
  | nil => simp [cutVariable]
  | cons first rest =>
    rw [cutVariable]
    split_ifs
    · exact Outcome.bind_ne_panic (hsplit _ _ _) fun _ _ => by simp
    · refine Outcome.bind_ne_panic ?_ fun _ _ => ?_
      · cases firstChunk 2 rest <;> simp
      · exact Outcome.bind_ne_panic (hsplit _ _ _) fun _ _ => by simp

theorem FieldSpecifier.cutEncoded_ne_panic (f : FieldSpecifier) (b : Bytes) :
    f.cutEncoded b ≠ .panic := by
  rw [cutEncoded]
  split_ifs
  · exact cutVariable_ne_panic b
  · exact Outcome.bind_ne_panic (split_ne_panic _ _) fun _ _ => by simp

theorem cutVariable_sound {b : Bytes} {e : Encoded} {r : Bytes} (h : cutVariable b = .ok (e, r)) :
    b = e.bytes ++ r ∧ ((∃ data, e = .short data ∧ data.length < 255) ∨
      ∃ data, e = .long data ∧ data.length ≤ 65535) := by
  cases b with
  | nil => simp [cutVariable] at h
  | cons first rest =>
    rw [cutVariable] at h
    split_ifs at h with hfirst
    · obtain ⟨⟨data, r'⟩, hdata, h⟩ := Outcome.bind_eq_ok.mp h
      obtain ⟨rfl, rfl⟩ : Encoded.short data = e ∧ r' = r := by simpa using h
      obtain ⟨hlen, rfl⟩ := (split_isCode _).sound (Outcome.mapErr_eq_ok.mp hdata)
      have hlt : first.toNat < 255 := hfirst
      exact ⟨by simp [Encoded.bytes, hlen], .inl ⟨data, rfl, by omega⟩⟩
    · obtain ⟨lenBytes, hchunk, h⟩ := Outcome.bind_eq_ok.mp h
      obtain ⟨⟨data, r'⟩, hdata, h⟩ := Outcome.bind_eq_ok.mp h
      obtain ⟨rfl, rfl⟩ : Encoded.long data = e ∧ r' = r := by simpa using h
      obtain ⟨hlen, hrest⟩ := (split_isCode _).sound (Outcome.mapErr_eq_ok.mp hdata)
      rw [id_eq] at hrest
      have h255 : first = 255 := by
        have hge : ¬ first.toNat < 255 := hfirst
        have hlt := first.toNat_lt
        exact UInt8.toNat_inj.mp (by simp; omega)
      by_cases h2 : 2 ≤ rest.length
      · obtain rfl : rest.take 2 = lenBytes := by simpa [firstChunk_eq h2] using hchunk
        have htake : (rest.take 2).length = 2 := by
          rw [List.length_take]
          omega
        have hword := (u16FromBe (rest.take 2)).toNat_lt
        refine ⟨?_, .inr ⟨data, rfl, by omega⟩⟩
        rw [Encoded.bytes, hlen, UInt16.ofNat_toNat, u16ToBe_u16FromBe htake, h255, List.cons_append,
          List.append_assoc, ← hrest, List.take_append_drop]
      · simp [firstChunk_none (Nat.lt_of_not_le h2)] at hchunk

theorem cutVariable_short {data : Bytes} (h : data.length < 255) (r : Bytes) :
    cutVariable ((Encoded.short data).bytes ++ r) = .ok (.short data, r) := by
  have hlen : (UInt8.ofNat data.length).toNat = data.length :=
    UInt8.toNat_ofNat_of_lt (by simp only [UInt8.size]; omega)
  have hfirst : UInt8.ofNat data.length < 255 := by
    rw [UInt8.lt_iff_toNat_lt, hlen]
    exact h
  simp [Encoded.bytes, cutVariable, hfirst, hlen, split_append, Outcome.mapErr]

theorem cutVariable_long {data : Bytes} (h : data.length ≤ 65535) (r : Bytes) :
    cutVariable ((Encoded.long data).bytes ++ r) = .ok (.long data, r) := by
  have hlen : (UInt16.ofNat data.length).toNat = data.length :=
    UInt16.toNat_ofNat_of_lt (by simp only [UInt16.size]; omega)
  have hchunk : firstChunk 2 (u16ToBe (UInt16.ofNat data.length) ++ (data ++ r)) =
      some (u16ToBe (UInt16.ofNat data.length)) := firstChunk_append _ (length_u16ToBe _)
  have hdrop : (u16ToBe (UInt16.ofNat data.length) ++ (data ++ r)).drop 2 = data ++ r :=
    List.drop_left' (length_u16ToBe _)
  simp [Encoded.bytes, cutVariable, hchunk, hdrop, hlen, split_append, Outcome.mapErr]

theorem FieldSpecifier.cutEncoded_isCode (f : FieldSpecifier) :
    IsCode Encoded.bytes (Encoded.Fits f) f.cutEncoded where
  sound := by
    intro b e r h
    rw [cutEncoded] at h
    split_ifs at h with hvar
    · obtain ⟨hb, ⟨data, rfl, hlen⟩ | ⟨data, rfl, hlen⟩⟩ := cutVariable_sound h
      · exact ⟨⟨hvar, hlen⟩, hb⟩
      · exact ⟨⟨hvar, hlen⟩, hb⟩
    · obtain ⟨⟨data, r'⟩, hdata, h⟩ := Outcome.bind_eq_ok.mp h
      obtain ⟨rfl, rfl⟩ : Encoded.fixed data = e ∧ r' = r := by simpa using h
      obtain ⟨hlen, hb⟩ := (split_isCode _).sound hdata
      exact ⟨⟨hvar, hlen⟩, hb⟩
  complete := by
    intro e he r
    cases e with
    | fixed data =>
      obtain ⟨hvar, hlen⟩ := he
      simp [cutEncoded, hvar, Encoded.bytes, split_append r hlen]
    | short data => rw [cutEncoded, if_pos he.1, cutVariable_short he.2]
    | long data => rw [cutEncoded, if_pos he.1, cutVariable_long he.2]

/-! ### Records -/

/-- Fewest bytes a record can take. -/
def TemplateRef.minSize (t : TemplateRef) : Nat := (t.fields.map FieldSpecifier.minSize).sum

/-- Fewer bytes than any record takes: padding. -/
def TemplateRef.padding (t : TemplateRef) (b : Bytes) : Prop := b.length < t.minSize

/-- One value for each field of the template. -/
def TemplateRef.Encodes (t : TemplateRef) (es : List Encoded) : Prop :=
  List.Forall₂ Encoded.Fits t.fields es

/-- A record of the template: the values of its fields, one after the other. -/
def TemplateRef.IsRecord (t : TemplateRef) (r : DataRecord) : Prop :=
  r.template = t ∧ ∃ es, t.Encodes es ∧ r.raw = es.flatMap Encoded.bytes

/-- Cutting one record off the front of a buffer, field by field. -/
def TemplateRef.cutRecord (t : TemplateRef) : Decoder Error DataRecord UInt8 := fun b => do
  let (es, r) ← (decodeAll FieldSpecifier.cutEncoded t.fields b).mapErr fun _ => .unexpectedEof
  return (⟨es.flatMap Encoded.bytes, t⟩, r)

theorem TemplateRef.cutFields_isCode (t : TemplateRef) :
    IsCode (fun es => es.flatMap Encoded.bytes) t.Encodes
      (decodeAll FieldSpecifier.cutEncoded t.fields) :=
  IsCode.all FieldSpecifier.cutEncoded_isCode t.fields

theorem TemplateRef.minSize_le {t : TemplateRef} {es : List Encoded} (h : t.Encodes es) :
    t.minSize ≤ (es.flatMap Encoded.bytes).length := by
  rw [minSize]
  rw [Encodes] at h
  generalize t.fields = fs at h ⊢
  induction h with
  | nil => simp
  | cons he _ ih =>
    have := Encoded.minSize_le he
    simp only [List.map_cons, List.sum_cons, List.flatMap_cons, List.length_append]
    omega

theorem TemplateRef.cutRecord_ok_iff {t : TemplateRef} {b r : Bytes} {record : DataRecord} :
    t.cutRecord b = .ok (record, r) ↔ t.IsRecord record ∧ b = record.raw ++ r := by
  rw [cutRecord, Outcome.bind_eq_ok]
  constructor
  · rintro ⟨⟨es, r'⟩, hes, h⟩
    obtain ⟨rfl, rfl⟩ : _ = record ∧ r' = r := by simpa using h
    obtain ⟨henc, hb⟩ := t.cutFields_isCode.sound (Outcome.mapErr_eq_ok.mp hes)
    exact ⟨⟨rfl, es, henc, rfl⟩, hb⟩
  · obtain ⟨raw, t'⟩ := record
    rintro ⟨⟨rfl, es, henc, rfl⟩, rfl⟩
    exact ⟨(es, r), Outcome.mapErr_eq_ok.mpr (t'.cutFields_isCode.complete henc r), rfl⟩

theorem TemplateRef.cutRecord_ne_panic (t : TemplateRef) (b : Bytes) : t.cutRecord b ≠ .panic := by
  refine Outcome.bind_ne_panic (fun h => ?_) fun _ _ => by simp
  exact decodeAll_ne_panic FieldSpecifier.cutEncoded_ne_panic _ _ (Outcome.mapErr_eq_panic.mp h)

/-- The records of a template that are not empty are a framed stream. -/
theorem TemplateRef.framing (t : TemplateRef) (h : 0 < t.minSize) :
    Framing DataRecord.raw t.IsRecord t.padding t.cutRecord where
  sound := cutRecord_ok_iff.mp
  complete := fun ha r => cutRecord_ok_iff.mpr ⟨ha, rfl⟩
  not_stop := by
    rintro record ⟨-, es, henc, hraw⟩ r
    have hmin := minSize_le henc
    rw [padding, hraw, List.length_append]
    omega
  ne_nil := by
    rintro record ⟨-, es, henc, hraw⟩ hnil
    have hmin := minSize_le henc
    rw [← hraw, hnil, List.length_nil] at hmin
    omega
  ne_panic := t.cutRecord_ne_panic

/-! ### The fields of a record -/

theorem FieldIter.yields_drop {tg : Target} {t : TemplateRef} (hlen : t.fields.length ≤ tg.usizeMax)
    {i : Nat} {fs : List FieldSpecifier} {es : List Encoded} (h : List.Forall₂ Encoded.Fits fs es)
    (hfs : t.fields.drop i = fs) (r : Bytes) :
    Yields (FieldIter.next tg) ⟨es.flatMap Encoded.bytes ++ r, t, i⟩
      ((List.zipWith Encoded.value fs es).map .ok) := by
  induction h generalizing i with
  | nil =>
    have hdone : ∀ it : FieldIter, it.template.fields[it.fieldIdx]? = none →
        ∃ it', next tg it = .ok (none, it') ∧ it'.template.fields[it'.fieldIdx]? = none :=
      fun it hit => ⟨it, by simp [next, hit], hit⟩
    exact Yields.nil hdone (List.getElem?_eq_none (List.drop_eq_nil_iff.mp hfs))
  | @cons f e fs es he _ ih =>
    have hi : t.fields[i]? = some f := by
      rw [← Nat.add_zero i, ← List.getElem?_drop, hfs]
      rfl
    have hlt : i < t.fields.length := (List.getElem?_eq_some_iff.mp hi).1
    have hcut : f.cut ((e :: es).flatMap Encoded.bytes ++ r) =
        .ok (e.data, es.flatMap Encoded.bytes ++ r) := by
      rw [FieldSpecifier.cut_eq, List.flatMap_cons, List.append_assoc,
        f.cutEncoded_isCode.complete he]
      rfl
    have hadd : (usizeAdd tg i 1 : Outcome Empty Nat) = .ok (i + 1) := usizeAdd_eq (by omega)
    have hnext : FieldIter.next tg ⟨(e :: es).flatMap Encoded.bytes ++ r, t, i⟩ =
        .ok (some (.ok (e.value f)), ⟨es.flatMap Encoded.bytes ++ r, t, i + 1⟩) := by
      simp only [next, hi, hadd, Outcome.ok_bind, hcut,
        Outcome.attempt_ok, Outcome.pure_eq]
      rfl
    refine Yields.cons hnext (ih ?_)
    rw [← List.drop_drop, hfs]
    rfl

/-- The fields of a record are the values it was put together from. -/
theorem FieldIter.yields {tg : Target} {r : DataRecord} (hlen : r.template.fields.length ≤ tg.usizeMax)
    {es : List Encoded} (henc : r.template.Encodes es) (hraw : r.raw = es.flatMap Encoded.bytes) :
    Yields (FieldIter.next tg) r.fields ((List.zipWith Encoded.value r.template.fields es).map .ok) := by
  have h := yields_drop hlen henc (i := 0) (List.drop_zero) []
  rw [List.append_nil, ← hraw] at h
  exact h

end IpfixParser

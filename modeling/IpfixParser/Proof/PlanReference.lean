import IpfixParser.Proof.Plan

/-!
# Plans against field by field decoding

`plainDecode` decodes a record without joining operations: one field after the other, each mapped one
copied to its place. A plan leaves the same buffer (`DecodePlan.apply_eq_plainDecode`), whatever was
joined. `DecodePlan.build_outcomes` says when there is a plan, and how long the buffers of one are.
-/

namespace IpfixParser

open Lib

/-! ### The reference -/

/-- A field's bytes as a decoded buffer holds them: in reverse on a little-endian machine, when there
are as many as an integer has. -/
def inMemory (e : Endian) (v : Bytes) : Bytes :=
  if e = .little ∧ v.length ∈ [2, 4, 8, 16] then v.reverse else v

/-- The fields of `src`, the mapped ones written to `dst` one after the other. -/
def plainDecode (e : Endian) (mappings : List Mapping) : List FieldSpecifier → Bytes → Bytes → Bytes
  | [], _, dst => dst
  | f :: fs, src, dst =>
    let n := f.fieldLength.toNat
    let dst' := match mappings.find? fun m => m.matches f with
      | some m => splice dst m.dstOffset.toNat (inMemory e (src.take n))
      | none => dst
    plainDecode e mappings fs (src.drop n) dst'

theorem nativeBytes_eq_inMemory (e : Endian) (v : Bytes) : nativeBytes e v = inMemory e v := by
  rw [nativeBytes, inMemory]
  by_cases hlen : v.length ∈ [2, 4, 8, 16]
  · rw [if_pos hlen]
    cases e with
    | little => rw [if_pos ⟨rfl, hlen⟩, toNe, toBe_fromBe]
    | big => rw [if_neg (by simp), toNe, toBe_fromBe]
  · rw [if_neg hlen, if_neg fun h => hlen h.2]

/-- The reference makes the writes of the fields' values. -/
theorem plainDecode_eq (e : Endian) (mappings : List Mapping) {fs : List FieldSpecifier}
    {vs : List Bytes} (hvs : Sized fs vs) (rest dst : Bytes) :
    plainDecode e mappings fs (vs.flatten ++ rest) dst =
      writeAll dst (fieldWrites e mappings fs vs) := by
  induction hvs generalizing dst with
  | nil => rfl
  | @cons f v fs vs hv _ ih =>
    have hsplit : (v :: vs).flatten ++ rest = v ++ (vs.flatten ++ rest) := by simp
    rw [plainDecode, hsplit, List.take_left' hv, List.drop_left' hv, ih, fieldWrites, fieldWrites,
      List.zip_cons_cons, List.filterMap_cons, fieldWrite]
    cases mappings.find? fun m => m.matches f with
    | none => rfl
    | some m =>
      rw [← nativeBytes_eq_inMemory]
      rfl

/-! ### Plans against the reference -/

/-- Running a plan on a record is decoding its fields one by one. It fails, without a write, when the
record or the destination is too short, and writes nothing but mapped fields. -/
theorem DecodePlan.apply_eq_plainDecode (tg : Target) {t : TemplateRef} {mappings : List Mapping}
    {plan : DecodePlan} (hbuild : build t mappings = .ok plan) (src dst : Bytes) :
    (plan.apply tg src dst =
      if src.length < (t.fields.map fun f => f.fieldLength.toNat).sum then
        .ok (.error .unexpectedEof, dst)
      else if dst.length < largestEnd mappings t.fields then
        .ok (.error .destinationBufferTooSmall, dst)
      else .ok (.ok (), plainDecode tg.endian mappings t.fields src dst)) ∧
    ((t.fields.map fun f => f.fieldLength.toNat).sum ≤ src.length →
      largestEnd mappings t.fields ≤ dst.length →
      (plainDecode tg.endian mappings t.fields src dst).length = dst.length ∧
      ∀ i, (∀ f ∈ t.fields, ∀ m ∈ mappings, m.name = f.name → i ∉ m.range f) →
        (plainDecode tg.endian mappings t.fields src dst)[i]? = dst[i]?) := by
  obtain ⟨st, rfl, hst, hmax, -⟩ := inv_of_build hbuild
  rw [← hst.srcOff, ← hmax]
  -- a long enough record is the values of its fields and what follows them
  have hvalues : st.srcOff.toNat ≤ src.length → ∃ vs rest, Sized t.fields vs ∧
      src = vs.flatten ++ rest := by
    intro hsrc
    have hlen := List.length_take_of_le hsrc
    rw [hst.srcOff] at hlen
    obtain ⟨vs, hvs, htake⟩ := Sized.exists hlen
    exact ⟨vs, _, hvs, by rw [← htake, List.take_append_drop]⟩
  constructor
  · split_ifs with hsrc hdst
    · exact (apply_spec tg hst.within src dst).trans (if_pos hsrc)
    · exact (apply_spec tg hst.within src dst).trans ((if_neg hsrc).trans (if_pos hdst))
    · obtain ⟨vs, rest, hvs, rfl⟩ := hvalues (Nat.le_of_not_lt hsrc)
      rw [plainDecode_eq tg.endian mappings hvs]
      exact hst.apply_eq tg hvs rest (Nat.le_of_not_lt hdst)
  · intro hsrc hdst
    obtain ⟨vs, rest, hvs, rfl⟩ := hvalues hsrc
    have hwithin : ∀ w ∈ fieldWrites tg.endian mappings t.fields vs, w.Within dst.length :=
      fun w hw => fieldWrites_within hst hvs hdst hw
    rw [plainDecode_eq tg.endian mappings hvs]
    refine ⟨length_writeAll hwithin, fun i hi => getElem?_writeAll_of_notMem hwithin ?_⟩
    intro w hw
    obtain ⟨⟨f, v⟩, hmem, hw⟩ := List.mem_filterMap.mp hw
    obtain ⟨m, hm, hname, -, rfl⟩ := fieldWrite_eq_some hw
    have hv : v.length = f.fieldLength.toNat := (List.forall₂_iff_zip.mp hvs).2 hmem
    unfold Write.places
    rw [length_nativeBytes, hv]
    exact hi f (List.of_mem_zip hmem).1 m hm hname

theorem DecodePlan.apply_eq_plainDecode_overlap :
    DecodePlan.apply .le64
        ⟨10, 6, [.swap .u16 1 0 2, .swap .u32 1 2 0, .copy 6 4 2, .swap .u16 1 8 2]⟩
        [0, 53, 10, 0, 0, 1, 6, 3, 0, 80] [9, 9, 9, 9, 9, 9, 9] =
      .ok (.ok (), [1, 0, 80, 0, 6, 3, 9]) := by
  have hbuild : build
      ⟨256, 0, [⟨7, none, 2⟩, ⟨8, none, 4⟩, ⟨4, none, 1⟩, ⟨5, none, 1⟩, ⟨7, none, 2⟩]⟩
      [.new 8 0, .new 7 2, .new 4 4, .new 5 5] =
        .ok ⟨10, 6, [.swap .u16 1 0 2, .swap .u32 1 2 0, .copy 6 4 2, .swap .u16 1 8 2]⟩ := rfl
  exact (apply_eq_plainDecode .le64 hbuild _ _).1

/-! ### When there is a plan -/

theorem largestEnd_le_iff (mappings : List Mapping) (fs : List FieldSpecifier) (n : Nat) :
    largestEnd mappings fs ≤ n ↔ ∀ f ∈ fs, (mappedEnd mappings f).getD 0 ≤ n := by
  induction fs using List.reverseRecOn with
  | nil => simp [largestEnd]
  | append_singleton fs f ih =>
    rw [largestEnd_concat, Nat.max_le, ih]
    simp only [List.mem_append, List.mem_singleton, or_imp, forall_and, forall_eq]

theorem lt_largestEnd_iff {mappings : List Mapping} (hnodup : (mappings.map Mapping.name).Nodup)
    (fs : List FieldSpecifier) (n : Nat) :
    n < largestEnd mappings fs ↔ ∃ f ∈ fs, ∃ m ∈ mappings, m.name = f.name ∧
      n < m.dstOffset.toNat + f.fieldLength.toNat := by
  rw [← Nat.not_le, largestEnd_le_iff]
  push Not
  refine exists_congr fun f => and_congr_right fun _ => ?_
  constructor
  · intro hlt
    cases hfind : mappings.find? fun m => m.matches f with
    | none => simp [mappedEnd, hfind] at hlt
    | some m =>
      obtain ⟨hm, hname⟩ := (find?_matches_iff hnodup).mp hfind
      exact ⟨m, hm, hname, by simpa [mappedEnd, hfind] using hlt⟩
  · rintro ⟨m, hm, hname, hlt⟩
    have hfind := (find?_matches_iff hnodup).mpr ⟨hm, hname⟩
    simpa [mappedEnd, hfind] using hlt

/-- A plan can be applied exactly to records and destinations of at least its two lengths. -/
theorem DecodePlan.apply_ok_iff (tg : Target) {t : TemplateRef} {mappings : List Mapping}
    {plan : DecodePlan} (hbuild : build t mappings = .ok plan) (src dst : Bytes) :
    (∃ dst', plan.apply tg src dst = .ok (.ok (), dst')) ↔
      plan.srcRecordLen.toNat ≤ src.length ∧ plan.dstBufLen.toNat ≤ dst.length := by
  obtain ⟨st, rfl, hst, -⟩ := inv_of_build hbuild
  rw [apply_spec tg hst.within]
  split_ifs with hsrc hdst
  · exact iff_of_false (by simp) fun h => Nat.not_le_of_lt hsrc h.1
  · exact iff_of_false (by simp) fun h => Nat.not_le_of_lt hdst h.2
  · exact iff_of_true ⟨_, rfl⟩ ⟨Nat.le_of_not_lt hsrc, Nat.le_of_not_lt hdst⟩

/-- `DecodePlan::build` fails in four ways, the first that applies, and otherwise knows the lengths of
records and destinations exactly. -/
theorem DecodePlan.build_outcomes (t : TemplateRef) (mappings : List Mapping) :
    if ∃ f ∈ t.fields, f.fieldLength = variableLength then
      build t mappings = .err .variableLengthInPlan
    else if ¬ (mappings.map Mapping.name).Nodup then build t mappings = .err .duplicateMapping
    else if 2 ^ 32 - 1 < (t.fields.map fun f => f.fieldLength.toNat).sum ∨
        ∃ f ∈ t.fields, ∃ m ∈ mappings, m.name = f.name ∧
          2 ^ 32 - 1 < m.dstOffset.toNat + f.fieldLength.toNat then
      build t mappings = .err .invalidLength
    else if ∃ m ∈ mappings, ∀ f ∈ t.fields, m.name ≠ f.name then
      build t mappings = .err .mappingNotFound
    else ∃ plan, build t mappings = .ok plan ∧
      plan.srcRecordLen.toNat = (t.fields.map fun f => f.fieldLength.toNat).sum ∧
      plan.dstBufLen.toNat = largestEnd mappings t.fields ∧
      ∀ (tg : Target) (src dst : Bytes), (∃ dst', plan.apply tg src dst = .ok (.ok (), dst')) ↔
        plan.srcRecordLen.toNat ≤ src.length ∧ plan.dstBufLen.toNat ≤ dst.length := by
  have hnovar : (∀ f ∈ t.fields, f.fieldLength ≠ variableLength) →
      ¬ ∃ f ∈ t.fields, f.fieldLength = variableLength := by
    rintro hvar ⟨f, hf, h⟩
    exact hvar f hf h
  have hshort : ∀ {st : PlanState}, (mappings.map Mapping.name).Nodup → st.Inv mappings t.fields →
      st.dstMax.toNat = largestEnd mappings t.fields →
      ¬ (2 ^ 32 - 1 < (t.fields.map fun f => f.fieldLength.toNat).sum ∨
        ∃ f ∈ t.fields, ∃ m ∈ mappings, m.name = f.name ∧
          2 ^ 32 - 1 < m.dstOffset.toNat + f.fieldLength.toNat) := by
    intro st hnodup hst hmax
    have hsrc := st.srcOff.toNat_lt
    have hdst := st.dstMax.toNat_lt
    rw [← lt_largestEnd_iff hnodup, ← hst.srcOff, ← hmax]
    omega
  have hbuilt := built t mappings
  generalize hresult : build t mappings = result at hbuilt
  cases hbuilt with
  | variableLength hvar => rw [if_pos hvar]
  | duplicate hvar hdup => rw [if_neg (hnovar hvar), if_pos hdup]
  | tooLong hvar hnodup hlong =>
    rw [if_neg (hnovar hvar), if_neg (not_not.mpr hnodup), if_pos]
    rw [← lt_largestEnd_iff hnodup]
    omega
  | notFound hvar hnodup hst hmax hunused =>
    rw [if_neg (hnovar hvar), if_neg (not_not.mpr hnodup), if_neg (hshort hnodup hst hmax),
      if_pos hunused]
  | plan hvar hnodup hst hmax hused =>
    have hfound : ¬ ∃ m ∈ mappings, ∀ f ∈ t.fields, m.name ≠ f.name := by
      rintro ⟨m, hm, hne⟩
      obtain ⟨f, hf, hname⟩ := hused m hm
      exact hne f hf hname
    rw [if_neg (hnovar hvar), if_neg (not_not.mpr hnodup), if_neg (hshort hnodup hst hmax),
      if_neg hfound]
    exact ⟨_, rfl, hst.srcOff, hmax, fun tg => apply_ok_iff tg hresult⟩

end IpfixParser

import IpfixParser.Proof.Plan

/-!
# No input makes the decoder panic

The model panics wherever the code would: a slice or an index out of bounds, an addition, a
multiplication or a subtraction that leaves its type. None of the decoding functions ever does.
-/

namespace IpfixParser

open Lib

theorem SetIter.next_ne_panic (it : SetIter) : next it ≠ .panic := by
  unfold next
  split_ifs
  · simp
  · cases h : Set.decode it.buf with
    | ok x => simp
    | err e => simp
    | panic => exact absurd h (Set.decode_ne_panic _)

theorem TemplateSetIter.next_ne_panic (it : TemplateSetIter) : next it ≠ .panic := by
  unfold next
  split_ifs
  · simp
  · simp
  · apply Outcome.bind_ne_panic
    · exact it.kind.decodeInto_ne_panic it.buf it.fieldsBuf
    · rintro ⟨_ | ⟨record, rest⟩, fieldsBuf⟩ _ <;> simp

theorem FieldIter.next_ne_panic {tg : Target} {it : FieldIter}
    (h : it.template.fields.length ≤ tg.usizeMax) : next tg it ≠ .panic := by
  unfold next
  cases hspec : it.template.fields[it.fieldIdx]? with
  | none => simp
  | some spec =>
    have hlt := (List.getElem?_eq_some_iff.mp hspec).1
    have hcut : spec.cut it.buf ≠ .panic := by
      rw [FieldSpecifier.cut_eq]
      exact Outcome.bind_ne_panic (spec.cutEncoded_ne_panic _) fun _ _ => by simp
    simp only [usizeAdd_eq (show it.fieldIdx + 1 ≤ tg.usizeMax by omega), Outcome.ok_bind]
    cases hc : spec.cut it.buf with
    | ok x => simp
    | err e => simp
    | panic => exact absurd hc hcut

theorem FieldIter.next_template {tg : Target} {it it' : FieldIter} {x : Option (Result FieldValue)}
    (h : next tg it = .ok (x, it')) : it'.template = it.template := by
  unfold next at h
  cases hspec : it.template.fields[it.fieldIdx]? with
  | none =>
    simp only [hspec, Outcome.pure_eq, Outcome.ok.injEq, Prod.mk.injEq] at h
    rw [h.2]
  | some spec =>
    simp only [hspec] at h
    obtain ⟨fieldIdx, -, h⟩ := Outcome.bind_eq_ok.mp h
    obtain ⟨r, -, h⟩ := Outcome.bind_eq_ok.mp h
    cases r <;> cases h <;> rfl

theorem LayoutScan.run_bounds (tg : Target) {t : TemplateRef} (ht : t.fields.length ≤ 65535)
    {fs : List FieldSpecifier} (hfs : fs <+: t.fields) :
    ∃ s, fs.foldlM (step tg) start = .ok s ∧
      s.minRecordSize = (fs.map FieldSpecifier.minSize).sum ∧ s.minRecordSize < 2 ^ 32 ∧
      s.lastEnd ≤ s.minRecordSize ∧ s.count.toNat ≤ s.skips.length := by
  have hlt := TemplateRef.minSize_lt ht
  have hmax := tg.usizeMax_ge
  have hle : _ ≤ t.minSize := sum_minSize_le_of_prefix hfs
  have hsize : start.minRecordSize + (fs.map FieldSpecifier.minSize).sum ≤ tg.usizeMax := by
    rw [start_inv.min, List.map_nil, List.sum_nil]
    omega
  obtain ⟨s, hrun, hs⟩ := run_inv tg fs start_inv hsize
  rw [List.nil_append] at hs
  refine ⟨s, hrun, hs.min, ?_, hs.last, ?_⟩
  · rw [hs.min]
    omega
  · rw [hs.skips]
    exact hs.count

theorem DataRecordIter.reaches_safe {tg : Target} {t : TemplateRef} {it₀ it : DataRecordIter}
    (hinv : it₀.Inv t) (hbuf : it₀.buf.length ≤ tg.isizeMax) (h : Reaches (next tg) it₀ it) :
    next tg it ≠ .panic ∧
    (∀ n, it.minRecordSize ≤ it.buf.length → it.extent tg = .ok n → n ≤ it.buf.length) ∧
    ∀ skips count trailing, it.layout = .inline skips count trailing →
      count.toNat ≤ skips.length := by
  obtain ⟨hinv, hbuf⟩ := h.inv (fun it => it.Inv t ∧ it.buf.length ≤ tg.isizeMax)
    (fun hit hnext => next_keeps hit.1 hit.2 hnext) ⟨hinv, hbuf⟩
  refine ⟨?_, ?_, ?_⟩
  · obtain ⟨x, it', hnext, -⟩ := next_takes hinv hbuf
    simp [hnext]
  · intro n hmin hext
    exact (extent_bounds hinv hbuf (hinv.min ▸ hmin) hext).1
  · intro skips count trailing hlayout
    have hsuits := hinv.layout
    rw [hlayout] at hsuits
    exact hsuits.2.1

/-- On any slice, with any template, scratch buffer, mappings and destination: no decoding function
panics, and the bounds that the unchecked slices and sums rely on hold. -/
theorem no_input_panics (tg : Target) (b : Bytes) (hb : b.length ≤ tg.isizeMax) (t : TemplateRef)
    (ht : t.fields.length ≤ 65535) (scratch : List FieldSpecifier) (mappings : List Mapping)
    (dst : Bytes) :
    MessageHeader.decode b ≠ .panic ∧
    Set.decode b ≠ .panic ∧
    (∀ it, Reaches SetIter.next (.new b) it → SetIter.next it ≠ .panic) ∧
    TemplateRecord.decodeInto b scratch ≠ .panic ∧
    TemplateRecord.decodeOptionsInto b scratch ≠ .panic ∧
    (∀ kind it, Reaches TemplateSetIter.next (.new b scratch kind) it →
      TemplateSetIter.next it ≠ .panic) ∧
    (∀ fs, fs <+: t.fields → ∃ s, fs.foldlM (LayoutScan.step tg) .start = .ok s ∧
      s.minRecordSize = (fs.map FieldSpecifier.minSize).sum ∧ s.minRecordSize < 2 ^ 32 ∧
      s.lastEnd ≤ s.minRecordSize ∧ s.count.toNat ≤ s.skips.length) ∧
    (∃ it₀, DataRecordIter.new tg b t = .ok it₀ ∧ ∀ it, Reaches (DataRecordIter.next tg) it₀ it →
      DataRecordIter.next tg it ≠ .panic ∧
      (∀ n, it.minRecordSize ≤ it.buf.length → it.extent tg = .ok n → n ≤ it.buf.length) ∧
      ∀ skips count trailing, it.layout = .inline skips count trailing →
        count.toNat ≤ skips.length) ∧
    (∀ it, Reaches (FieldIter.next tg) (DataRecord.fields ⟨b, t⟩) it →
      FieldIter.next tg it ≠ .panic) ∧
    DecodePlan.build t mappings ≠ .panic ∧
    ∀ plan, DecodePlan.build t mappings = .ok plan →
      (∀ op ∈ plan.ops, op.Within plan.srcRecordLen.toNat plan.dstBufLen.toNat) ∧
      plan.apply tg b dst ≠ .panic := by
  have hmax := tg.usizeMax_ge
  refine ⟨MessageHeader.decode_ne_panic b, Set.decode_ne_panic b,
    fun it _ => it.next_ne_panic, TemplateSetKind.decodeInto_ne_panic .template b scratch,
    TemplateSetKind.decodeInto_ne_panic .optionsTemplate b scratch, fun _ it _ => it.next_ne_panic,
    fun fs hfs => LayoutScan.run_bounds tg ht hfs, ?_, ?_, ?_, ?_⟩
  · obtain ⟨it₀, hnew, rfl, hinv⟩ :=
      DataRecordIter.new_inv tg (TemplateRef.minSize_le_usizeMax ht tg) b
    exact ⟨it₀, hnew, fun it h => DataRecordIter.reaches_safe hinv hb h⟩
  · intro it h
    have htemplate : it.template = t := h.inv (fun it => it.template = t)
      (fun hit hnext => (FieldIter.next_template hnext).trans hit) rfl
    apply FieldIter.next_ne_panic
    rw [htemplate]
    omega
  · intro hpanic
    have hbuilt := DecodePlan.built t mappings
    rw [hpanic] at hbuilt
    cases hbuilt
  · intro plan hplan
    obtain ⟨st, rfl, hst, -⟩ := DecodePlan.inv_of_build hplan
    refine ⟨hst.within, ?_⟩
    rw [DecodePlan.apply_spec tg hst.within]
    split_ifs <;> simp

theorem no_input_panics_longest :
    ∃ it, DataRecordIter.new .le32 [] ⟨256, 0, List.replicate 65535 ⟨1, none, 65534⟩⟩ = .ok it := by
  obtain ⟨-, -, -, -, -, -, -, ⟨it, hnew, -⟩, -⟩ := no_input_panics .le32 [] (Nat.zero_le _)
    ⟨256, 0, List.replicate 65535 ⟨1, none, 65534⟩⟩ (Nat.le_of_eq List.length_replicate) [] [] []
  exact ⟨it, hnew⟩

end IpfixParser

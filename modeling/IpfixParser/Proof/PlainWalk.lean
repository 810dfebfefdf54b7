import IpfixParser.Proof.Records

/-!
# Layouts against the plain walk

`DataRecordIter::next` is meant to find the records that `record_extent` finds, whatever the layout.
`DataRecordIter.nextPlain` is the iterator that always asks `record_extent`; the two agree while the
layout describes its template (`DataRecordIter.next_eq_nextPlain`). The scan of
`DataRecordIter::new` takes a template for one without variable-length fields when none of their skips
fits the table (`LayoutScan.run_blank`); such an iterator finds the right records only where every
variable-length field is empty.
-/

namespace IpfixParser

open Lib

/-- `DataRecordIter::next` with `record_extent` in place of the layouts. -/
def DataRecordIter.nextPlain (tg : Target) : Next DataRecordIter (Result DataRecord) := fun it => do
  if it.buf.length < it.minRecordSize then return (none, { it with buf := [] })
  else
    match ← (recordExtent tg it.buf it.template).attempt with
    | .error e => return (some (.error e), { it with buf := [] })
    | .ok extent =>
      let (recordBytes, rest) ← splitAt it.buf extent
      return (some (.ok ⟨recordBytes, it.template⟩), { it with buf := rest })

/-- A layout that says of a template what is so. -/
def VarlenLayout.Describes (t : TemplateRef) : VarlenLayout → Prop
  | allFixed => ∀ f ∈ t.fields, f.fieldLength ≠ variableLength
  | inline skips count trailing => count.toNat ≤ skips.length ∧
      (skips.take count.toNat).map UInt16.toNat = (gaps t.fields).1 ∧
      trailing.toNat = (gaps t.fields).2
  | fallback => True

/-- Some variable-length field, if there is one, has a skip that the table can hold. -/
def TemplateRef.SomeSkipFits (t : TemplateRef) : Prop :=
  (∀ f ∈ t.fields, f.fieldLength ≠ variableLength) ∨ ∃ g ∈ (gaps t.fields).1, g < 2 ^ 16

/-- From `o` on, the fields are in the buffer with every variable-length field empty. -/
def EmptyVarlens (b : Bytes) : List FieldSpecifier → Nat → Prop
  | [], _ => True
  | f :: fs, o => (f.fieldLength = variableLength → b[o]? = some 0) ∧ EmptyVarlens b fs (o + f.minSize)

/-- Every whole stretch of the smallest record's size is a record with empty variable-length fields. -/
def TemplateRef.OnlyEmptyVarlens (t : TemplateRef) (b : Bytes) : Prop :=
  ∀ i, (i + 1) * t.minSize ≤ b.length → EmptyVarlens (b.drop (i * t.minSize)) t.fields 0

/-! ### Skips that do not fit -/

/-- The count stays 0 as long as no skip fits. -/
theorem LayoutScan.run_blank {tg : Target} (fs' : List FieldSpecifier) {fs : List FieldSpecifier}
    {s s' : LayoutScan} (hs : s.Inv fs) (hblank : s.count = 0 ↔ ∀ g ∈ (gaps fs).1, 2 ^ 16 ≤ g)
    (hrun : fs'.foldlM (step tg) s = .ok s') :
    s'.Inv (fs ++ fs') ∧ (s'.count = 0 ↔ ∀ g ∈ (gaps (fs ++ fs')).1, 2 ^ 16 ≤ g) := by
  induction fs' generalizing fs s with
  | nil =>
    cases hrun
    rw [List.append_nil]
    exact ⟨hs, hblank⟩
  | cons f fs' ih =>
    rw [List.foldlM_cons] at hrun
    obtain ⟨s₁, hstep, hrun⟩ := Outcome.bind_eq_ok.mp hrun
    have hcases := (step_cases hstep).1
    have hblank₁ : s₁.count = 0 ↔ ∀ g ∈ (gaps (fs ++ [f])).1, 2 ^ 16 ≤ g := by
      have hgap := hs.gap
      cases hcases with
      | fixed hvar => rwa [gaps_concat_fixed hvar]
      | recorded hvar hidx hfits =>
        have hidx4 : s.count.toNat < 4 := hidx
        have hcount : s.count + 1 ≠ 0 := by
          intro hzero
          have := congrArg UInt8.toNat hzero
          rw [UInt8.toNat_add] at this
          simp at this
          omega
        rw [gaps_concat_varlen hvar]
        refine ⟨fun hzero => absurd hzero hcount, fun hall => ?_⟩
        have := hall (gaps fs).2 (by simp)
        omega
      | overflowed hvar hbig =>
        rw [gaps_concat_varlen hvar]
        simp only [List.mem_append, List.mem_singleton, or_imp, forall_and, forall_eq, ← hblank,
          ← hgap]
        exact ⟨fun hzero => ⟨hzero, hbig hzero⟩, fun h => h.1⟩
    rw [List.append_cons]
    exact ih (hcases.inv hs) hblank₁ hrun

/-! ### Extents -/

theorem length_gaps (fs : List FieldSpecifier) :
    (gaps fs).1.length = fs.countP fun f => f.fieldLength = variableLength := by
  induction fs using List.reverseRecOn with
  | nil => rfl
  | append_singleton fs f ih =>
    by_cases hvar : f.fieldLength = variableLength
    · simp [gaps_concat_varlen hvar, ih, hvar]
    · simp [gaps_concat_fixed hvar, ih, hvar]

theorem walk_le_count {b : Bytes} {fs : List FieldSpecifier} {o o' : Nat} (h : walk b fs o = some o') :
    o' ≤ o + (fs.map FieldSpecifier.minSize).sum +
      65537 * fs.countP fun f => f.fieldLength = variableLength := by
  induction fs generalizing o with
  | nil =>
    cases h
    exact Nat.le_refl _
  | cons f fs ih =>
    rw [walk, List.foldlM_cons] at h
    obtain ⟨o₁, hstep, h⟩ := Option.bind_eq_some_iff.mp h
    have hle := ih h
    rw [walkStep] at hstep
    rw [List.map_cons, List.sum_cons, FieldSpecifier.minSize, List.countP_cons]
    simp only [decide_eq_true_eq]
    split_ifs at hstep ⊢ with hvar
    · have hbounds := prefixEnd_bounds hstep
      omega
    · cases hstep
      omega

theorem recordExtent_eq_of_few {tg : Target} {b : Bytes} {t : TemplateRef}
    (hb : b.length ≤ tg.isizeMax) (hmin : t.minSize ≤ b.length)
    (hfew : (gaps t.fields).1.length ≤ 255) :
    recordExtent tg b t = endIn b (walk b t.fields 0) := by
  have hmax := tg.isizeMax_add_le
  rw [length_gaps] at hfew
  have hfold : t.fields.foldlM (extentStep tg b) 0 = .okOr .unexpectedEof (walk b t.fields 0) := by
    refine foldlM_extentStep_of_le hb fun pre hpre o' hwalk => ?_
    have hle := walk_le_count hwalk
    have hpre' : _ ≤ t.minSize := sum_minSize_le_of_prefix hpre
    have hcount := hpre.sublist.countP_le (p := fun f => f.fieldLength = variableLength)
    omega
  rw [recordExtent, hfold]
  cases walk b t.fields 0 <;> rfl

theorem prefixEnd_eq_succ_iff {b : Bytes} {o : Nat} :
    prefixEnd b o = some (o + 1) ↔ b[o]? = some 0 := by
  rw [prefixEnd]
  cases hfirst : b[o]? with
  | none => simp
  | some first =>
    have hzero : first = 0 ↔ first.toNat = 0 := by rw [← UInt8.toNat_inj, UInt8.toNat_zero]
    simp only [Option.some.injEq, hzero]
    split_ifs with hshort hlong
    · simp only [Option.some.injEq]
      omega
    · have hbyte : ¬ first.toNat < 255 := hshort
      simp only [Option.some.injEq]
      omega
    · have hbyte : ¬ first.toNat < 255 := hshort
      simp only [false_iff]
      omega

theorem foldlM_extentStep_eq_min_iff {tg : Target} {b : Bytes} (hb : b.length ≤ tg.isizeMax)
    {fs : List FieldSpecifier} {o : Nat} (ho : o + (fs.map FieldSpecifier.minSize).sum ≤ tg.usizeMax) :
    fs.foldlM (extentStep tg b) o = .ok (o + (fs.map FieldSpecifier.minSize).sum) ↔
      EmptyVarlens b fs o := by
  induction fs generalizing o with
  | nil => exact iff_of_true rfl trivial
  | cons f fs ih =>
    rw [List.map_cons, List.sum_cons, ← Nat.add_assoc] at ho ⊢
    have hfirst : extentStep tg b o f = .ok (o + f.minSize) ↔
        (f.fieldLength = variableLength → b[o]? = some 0) := by
      rw [extentStep, FieldSpecifier.minSize]
      by_cases hvar : f.fieldLength = variableLength
      · rw [if_pos hvar, if_pos hvar, varlenEnd_eq hb, ← prefixEnd_eq_succ_iff]
        cases prefixEnd b o <;> simp [hvar]
      · rw [FieldSpecifier.minSize, if_neg hvar] at ho
        rw [if_neg hvar, if_neg hvar, usizeCheckedAdd_eq (by omega)]
        simp [hvar]
    rw [EmptyVarlens, ← hfirst, ← ih ho, List.foldlM_cons]
    constructor
    · intro h
      obtain ⟨o₁, hstep, hrest⟩ := Outcome.bind_eq_ok.mp h
      have hge := extentStep_ge hb hstep
      have hge' := foldlM_extentStep_ge hb hrest
      obtain rfl : o₁ = o + f.minSize := by omega
      exact ⟨hstep, hrest⟩
    · rintro ⟨hstep, hrest⟩
      rw [hstep, Outcome.ok_bind, hrest]

theorem recordExtent_eq_min_iff {tg : Target} {b : Bytes} {t : TemplateRef}
    (hb : b.length ≤ tg.isizeMax) (hmin : t.minSize ≤ b.length) :
    recordExtent tg b t = .ok t.minSize ↔ EmptyVarlens b t.fields 0 := by
  have hmax := tg.isizeMax_add_le
  have hsum : 0 + (t.fields.map FieldSpecifier.minSize).sum = t.minSize := Nat.zero_add _
  rw [← foldlM_extentStep_eq_min_iff hb (by omega), hsum, recordExtent]
  constructor
  · intro h
    obtain ⟨o, hfold, h⟩ := Outcome.bind_eq_ok.mp h
    split_ifs at h
    cases h
    exact hfold
  · intro h
    rw [h, Outcome.ok_bind, if_neg (Nat.not_lt_of_le hmin)]
    rfl

theorem emptyVarlens_of_fixed {b : Bytes} {fs : List FieldSpecifier}
    (h : ∀ f ∈ fs, f.fieldLength ≠ variableLength) (o : Nat) : EmptyVarlens b fs o := by
  induction fs generalizing o with
  | nil => trivial
  | cons f fs ih =>
    exact ⟨fun hvar => absurd hvar (h f (by simp)), ih (fun g hg => h g (by simp [hg])) _⟩

namespace DataRecordIter

variable {tg : Target} {t : TemplateRef} {buf : Bytes} {it it' : DataRecordIter}

theorem describes_iff (h : new tg buf t = .ok it) : it.layout.Describes t ↔ t.SomeSkipFits := by
  obtain ⟨s, hrun, h⟩ := Outcome.bind_eq_ok.mp h
  obtain ⟨layout, hlayout, h⟩ := Outcome.bind_eq_ok.mp h
  cases h
  obtain ⟨hs, hblank⟩ := LayoutScan.run_blank t.fields LayoutScan.start_inv
    (by simp [LayoutScan.start, gaps]) hrun
  rw [List.nil_append] at hs hblank
  rw [LayoutScan.layout] at hlayout
  by_cases hzero : s.count = 0
  · rw [if_pos hzero] at hlayout
    cases hlayout
    refine ⟨.inl, ?_⟩
    rintro (hfixed | ⟨g, hg, hlt⟩)
    · exact hfixed
    · exact absurd (hblank.mp hzero g hg) (Nat.not_le_of_lt hlt)
  · have hfits : t.SomeSkipFits := by
      right
      by_contra hnone
      push Not at hnone
      exact hzero (hblank.mpr hnone)
    rw [if_neg hzero] at hlayout
    refine iff_of_true ?_ hfits
    cases hover : s.overflow with
    | true =>
      rw [hover, if_pos rfl] at hlayout
      cases hlayout
      trivial
    | false =>
      obtain ⟨hlen, htake, hall⟩ := hs.table hover
      rw [hover, if_neg (by simp), uintSub_eq hs.last, Outcome.ok_bind] at hlayout
      split_ifs at hlayout with htrailing
      · cases hlayout
        refine ⟨?_, ?_, ?_⟩
        · rw [hs.skips]
          exact hs.count
        · rw [htake, List.map_map]
          refine List.map_congr_left (fun g hg => ?_) |>.trans (List.map_id _)
          exact UInt16.toNat_ofNat_of_lt (hall g hg)
        · rw [← hs.gap]
          exact UInt16.toNat_ofNat_of_lt htrailing
      · cases hlayout
        trivial

theorem extent_of_describes (hinv : it.Inv t) (hbuf : it.buf.length ≤ tg.isizeMax)
    (hdesc : it.layout.Describes t) (hmin : t.minSize ≤ it.buf.length) :
    it.extent tg = recordExtent tg it.buf it.template := by
  rw [extent, hinv.template]
  cases hlayout : it.layout with
  | allFixed =>
    rw [hlayout] at hdesc
    rw [(recordExtent_eq_min_iff hbuf hmin).mpr (emptyVarlens_of_fixed hdesc 0), hinv.min]
  | inline skips count trailing =>
    rw [hlayout] at hdesc
    obtain ⟨hcount, hskips, htrailing⟩ := hdesc
    have hwords : skips.take count.toNat = (gaps t.fields).1.map UInt16.ofNat := by
      rw [← hskips, List.map_map]
      exact ((List.map_congr_left fun w _ => UInt16.ofNat_toNat).trans (List.map_id _)).symm
    have hall : ∀ g ∈ (gaps t.fields).1, g < 2 ^ 16 := by
      rw [← hskips]
      simp only [List.mem_map, forall_exists_index, and_imp, forall_apply_eq_imp_iff₂]
      exact fun w _ => w.toNat_lt
    have hfew : (gaps t.fields).1.length ≤ 255 := by
      have hcount' := count.toNat_lt
      rw [← hskips, List.length_map, List.length_take]
      omega
    simp only
    rw [recordExtentInline_eq hbuf hcount hwords hall, htrailing, recordExtent_eq_of_few hbuf hmin hfew,
      ← walkGaps_gaps]
  | fallback => rfl

theorem next_eq_nextPlain (hinv : it.Inv t) (hbuf : it.buf.length ≤ tg.isizeMax)
    (hdesc : it.layout.Describes t) : next tg it = nextPlain tg it := by
  rw [next, nextPlain]
  by_cases hshort : it.buf.length < it.minRecordSize
  · rw [if_pos hshort, if_pos hshort]
  · rw [hinv.min] at hshort
    have hext := extent_of_describes hinv hbuf hdesc (Nat.le_of_not_lt hshort)
    generalize it.extent tg = x at hext
    subst hext
    rfl

theorem Takes.layout {x : Option (Result DataRecord)} (h : Takes tg it x it') :
    it'.layout = it.layout := by
  cases h <;> rfl

theorem call_eq_of_describes (hinv : it.Inv t) (hbuf : it.buf.length ≤ tg.isizeMax)
    (hdesc : it.layout.Describes t) (k : Nat) : call (next tg) k it = call (nextPlain tg) k it := by
  refine call_congr (fun it => (it.Inv t ∧ it.buf.length ≤ tg.isizeMax) ∧ it.layout.Describes t)
    (fun it h => next_eq_nextPlain h.1.1 h.1.2 h.2) ?_ ⟨⟨hinv, hbuf⟩, hdesc⟩ k
  rintro it x it' ⟨⟨hinv, hbuf⟩, hdesc⟩ hnext
  obtain ⟨x', it₁, hnext', htakes⟩ := next_takes hinv hbuf
  have hkeeps := next_keeps hinv hbuf hnext
  rw [hnext] at hnext'
  cases hnext'
  refine ⟨hkeeps, ?_⟩
  rwa [htakes.layout]

/-! ### Without a table -/

theorem call_of_short (hpos : 0 < it.minRecordSize) (hshort : it.buf.length < it.minRecordSize) (k : Nat) :
    call (next tg) k it = .ok none ∧ call (nextPlain tg) k it = .ok none := by
  have hnext : next tg it = .ok (none, { it with buf := [] }) := if_pos hshort
  have hplain : nextPlain tg it = .ok (none, { it with buf := [] }) := if_pos hshort
  induction k generalizing it with
  | zero => exact ⟨call_zero_of_next hnext, call_zero_of_next hplain⟩
  | succ k ih =>
    rw [call_succ_of_next hnext, call_succ_of_next hplain]
    exact ih hpos hpos (if_pos hpos) (if_pos hpos)

theorem onlyEmptyVarlens_iff {b : Bytes} (hmin : t.minSize ≤ b.length) :
    t.OnlyEmptyVarlens b ↔
      EmptyVarlens b t.fields 0 ∧ t.OnlyEmptyVarlens (b.drop t.minSize) := by
  have hnext : ∀ i, (b.drop t.minSize).drop (i * t.minSize) = b.drop ((i + 1) * t.minSize) := by
    intro i
    rw [List.drop_drop, Nat.succ_mul, Nat.add_comm]
  have hlen : ∀ i, (i + 1) * t.minSize ≤ (b.drop t.minSize).length ↔
      (i + 1 + 1) * t.minSize ≤ b.length := by
    intro i
    rw [List.length_drop, Nat.succ_mul (i + 1)]
    omega
  simp only [TemplateRef.OnlyEmptyVarlens, hnext, hlen]
  constructor
  · intro h
    have h0 := h 0 (by omega)
    rw [Nat.zero_mul, List.drop_zero] at h0
    exact ⟨h0, fun i => h (i + 1)⟩
  · rintro ⟨h0, h⟩ i
    cases i with
    | zero =>
      rw [Nat.zero_mul, List.drop_zero]
      exact fun _ => h0
    | succ i => exact h i

theorem call_eq_iff_of_allFixed (hpos : 0 < t.minSize) (hinv : it.Inv t)
    (hbuf : it.buf.length ≤ tg.isizeMax) (hlayout : it.layout = .allFixed) :
    (∀ k, call (next tg) k it = call (nextPlain tg) k it) ↔ t.OnlyEmptyVarlens it.buf := by
  induction hlen : it.buf.length using Nat.strongRecOn generalizing it with
  | ind n ih =>
    subst hlen
    by_cases hshort : it.buf.length < t.minSize
    · refine iff_of_true (fun k => ?_) fun i hi => ?_
      · rw [← hinv.min] at hpos hshort
        obtain ⟨hnext, hplain⟩ := call_of_short hpos hshort k
        rw [hnext, hplain]
      · have hle : t.minSize ≤ (i + 1) * t.minSize := Nat.le_mul_of_pos_left _ (Nat.succ_pos i)
        omega
    have hmin := Nat.le_of_not_lt hshort
    have hnext : next tg it =
        .ok (some (.ok ⟨it.buf.take t.minSize, it.template⟩), { it with buf := it.buf.drop t.minSize }) := by
      rw [next, if_neg (by rwa [hinv.min])]
      simp [extent, hlayout, hinv.min, splitAt_eq hmin]
    have hinv' : Inv t { it with buf := it.buf.drop t.minSize } :=
      ⟨hinv.template, hinv.min, hinv.layout⟩
    have hshorter : (it.buf.drop t.minSize).length < it.buf.length := by
      rw [List.length_drop]
      omega
    have hrest := ih _ hshorter hinv' (Nat.le_trans (Nat.le_of_lt hshorter) hbuf) hlayout rfl
    have hplain : recordExtent tg it.buf t = .ok t.minSize → nextPlain tg it = next tg it := by
      intro hext
      rw [hnext, nextPlain, if_neg (by rwa [hinv.min])]
      simp [hinv.template, hext, splitAt_eq hmin]
    rw [onlyEmptyVarlens_iff hmin, ← recordExtent_eq_min_iff hbuf hmin, ← hrest]
    constructor
    · intro hall
      have hfirst := hall 0
      rw [call_zero_of_next hnext] at hfirst
      -- the plain iterator has returned a record of the same length
      have hext : recordExtent tg it.buf t = .ok t.minSize := by
        rw [call, nextPlain, if_neg (by rwa [hinv.min]), hinv.template] at hfirst
        cases hext : recordExtent tg it.buf t with
        | ok n =>
          have hn := (recordExtent_bounds hbuf hext).2
          simp only [hext, Outcome.attempt_ok, Outcome.ok_bind, splitAt_eq hn, Outcome.pure_eq,
            Outcome.ok.injEq, Option.some.injEq, Except.ok.injEq, DataRecord.mk.injEq] at hfirst
          have hlens := congrArg List.length hfirst.1
          rw [List.length_take_of_le hmin, List.length_take_of_le hn] at hlens
          rw [hlens]
        | err e => simp [hext] at hfirst
        | panic => simp [hext] at hfirst
      refine ⟨hext, fun k => ?_⟩
      have hk := hall (k + 1)
      rwa [call_succ_of_next hnext, call_succ_of_next ((hplain hext).trans hnext)] at hk
    · rintro ⟨hext, hall⟩ k
      cases k with
      | zero => rw [call_zero_of_next hnext, call_zero_of_next ((hplain hext).trans hnext)]
      | succ k =>
        rw [call_succ_of_next hnext, call_succ_of_next ((hplain hext).trans hnext)]
        exact hall k

end DataRecordIter

/-- The layouts do what the plain walk does, and say of the template what is so, exactly if some skip of
the template fits their table. Otherwise the iterator takes the template for one without
variable-length fields, which is right only where these are empty. -/
theorem layouts_agree_iff (tg : Target) (t : TemplateRef) (buf : Bytes)
    (hbuf : buf.length ≤ tg.isizeMax) :
    (t.minSize ≤ tg.usizeMax → ∃ it, DataRecordIter.new tg buf t = .ok it) ∧
    ∀ it, DataRecordIter.new tg buf t = .ok it →
      (((∀ k, call (DataRecordIter.next tg) k it = call (DataRecordIter.nextPlain tg) k it) ∧
          it.layout.Describes t) ↔ t.SomeSkipFits) ∧
      ((∀ k, call (DataRecordIter.next tg) k it = call (DataRecordIter.nextPlain tg) k it) ↔
        t.SomeSkipFits ∨ t.OnlyEmptyVarlens buf) := by
  refine ⟨fun hsize => ?_, fun it hnew => ?_⟩
  · obtain ⟨it, hnew, -⟩ := DataRecordIter.new_inv tg hsize buf
    exact ⟨it, hnew⟩
  have hdesc := DataRecordIter.describes_iff hnew
  obtain ⟨rfl, hinv⟩ := DataRecordIter.inv_of_new hnew
  have hsame : t.SomeSkipFits →
      ∀ k, call (DataRecordIter.next tg) k it = call (DataRecordIter.nextPlain tg) k it :=
    fun hfits => DataRecordIter.call_eq_of_describes hinv hbuf (hdesc.mpr hfits)
  refine ⟨⟨fun h => hdesc.mp h.2, fun hfits => ⟨hsame hfits, hdesc.mpr hfits⟩⟩, ?_⟩
  by_cases hfits : t.SomeSkipFits
  · exact iff_of_true (hsame hfits) (.inl hfits)
  have hpos : 0 < t.minSize := by
    have hvar : ¬ ∀ f ∈ t.fields, f.fieldLength ≠ variableLength := fun h => hfits (.inl h)
    push Not at hvar
    obtain ⟨f, hf, hvar⟩ := hvar
    exact TemplateRef.minSize_pos_iff.mpr ⟨f, hf, by rw [hvar]; decide⟩
  have hlayout : it.layout = .allFixed := by
    have hnot : ¬ it.layout.Describes t := fun h => hfits (hdesc.mp h)
    have hsuits := hinv.layout
    cases hlayout : it.layout with
    | allFixed => rfl
    | inline skips count trailing =>
      rw [hlayout] at hsuits
      obtain ⟨hne, -, -, hall, -⟩ := hsuits
      obtain ⟨g, hg⟩ := List.exists_mem_of_ne_nil _ hne
      exact absurd (.inr ⟨g, hg, hall g hg⟩) hfits
    | fallback =>
      rw [hlayout] at hnot
      exact absurd trivial hnot
  rw [DataRecordIter.call_eq_iff_of_allFixed hpos hinv hbuf hlayout, or_iff_right hfits]

theorem layouts_agree_iff_name :
    ∃ it, DataRecordIter.new .le64 [10, 0, 0, 1, 2, 65, 66]
        ⟨256, 0, [⟨8, none, 4⟩, ⟨82, none, 65535⟩]⟩ = .ok it ∧
      ∀ k, call (DataRecordIter.next .le64) k it = call (DataRecordIter.nextPlain .le64) k it := by
  obtain ⟨hnew, hagree⟩ := layouts_agree_iff .le64 ⟨256, 0, [⟨8, none, 4⟩, ⟨82, none, 65535⟩]⟩
    [10, 0, 0, 1, 2, 65, 66] (by decide)
  obtain ⟨it, hnew⟩ := hnew (by decide)
  refine ⟨it, hnew, (hagree it hnew).2.mpr (.inl (.inr ⟨4, ?_, by decide⟩))⟩
  decide

theorem length_zeros_append (n : Nat) (bs : Bytes) :
    (List.replicate n 0 ++ bs : Bytes).length = n + bs.length := by
  rw [List.length_append, List.length_replicate]

theorem getElem?_zeros_append (n : Nat) (b : UInt8) (bs : Bytes) :
    (List.replicate n 0 ++ b :: bs : Bytes)[n]? = some b := by
  simp

theorem allFixed_cuts_name {buf : Bytes} (hlen : buf.length = 65538) (hget : buf[65536]? = some 1) :
    let t : TemplateRef := ⟨256, 0, [⟨210, none, 65534⟩, ⟨4, none, 2⟩, ⟨82, none, 65535⟩]⟩
    ∃ it, DataRecordIter.new .le64 buf t = .ok it ∧ it.layout = .allFixed ∧
      ¬ it.layout.Describes t ∧
      call (DataRecordIter.next .le64) 0 it = .ok (some (.ok ⟨buf.take 65537, t⟩)) ∧
      call (DataRecordIter.nextPlain .le64) 0 it = .ok (some (.ok ⟨buf, t⟩)) ∧
      ¬ ∀ k, call (DataRecordIter.next .le64) k it = call (DataRecordIter.nextPlain .le64) k it := by
  intro t
  have hnext : DataRecordIter.next .le64 ⟨buf, t, 65537, .allFixed⟩ =
      .ok (some (.ok ⟨buf.take 65537, t⟩), ⟨buf.drop 65537, t, 65537, .allFixed⟩) := by
    simp [DataRecordIter.next, DataRecordIter.extent, hlen, splitAt]
  have hwalk : walk buf t.fields 0 = some 65538 := by
    have hname : prefixEnd buf 65536 = some 65538 := by simp [prefixEnd, hget]
    simp [t, walk, walkStep, variableLength, hname]
  have hmin : t.minSize = 65537 := rfl
  have hfew : (gaps t.fields).1.length = 1 := rfl
  have hmax : Target.le64.isizeMax = 2 ^ 63 - 1 := rfl
  have hext : recordExtent .le64 buf t = .ok 65538 := by
    rw [recordExtent_eq_of_few (by omega) (by omega) (by omega), hwalk, endIn, if_neg (by omega)]
  have hplain : DataRecordIter.nextPlain .le64 ⟨buf, t, 65537, .allFixed⟩ =
      .ok (some (.ok ⟨buf, t⟩), ⟨[], t, 65537, .allFixed⟩) := by
    have hall : buf.take 65538 = buf := List.take_of_length_le (by omega)
    have hnone : buf.drop 65538 = [] := List.drop_of_length_le (by omega)
    simp [DataRecordIter.nextPlain, hext, hlen, splitAt, hall, hnone]
  have hdiff : buf.take 65537 ≠ buf := by
    intro h
    have := congrArg List.length h
    simp [hlen] at this
  refine ⟨⟨buf, t, 65537, .allFixed⟩, rfl, rfl, ?_, call_zero_of_next hnext, call_zero_of_next hplain, ?_⟩
  · exact fun h => h ⟨82, none, 65535⟩ (by simp [t]) rfl
  · intro h
    have h0 := h 0
    rw [call_zero_of_next hnext, call_zero_of_next hplain] at h0
    simp [hdiff] at h0

/-- Two long fixed fields in front of a name. The iterator takes the template for one of fixed length
and cuts the record before the name's last byte. -/
theorem layouts_disagree :
    let t : TemplateRef := ⟨256, 0, [⟨210, none, 65534⟩, ⟨4, none, 2⟩, ⟨82, none, 65535⟩]⟩
    let buf : Bytes := List.replicate 65536 0 ++ [1, 65]
    ∃ it, DataRecordIter.new .le64 buf t = .ok it ∧ it.layout = .allFixed ∧
      ¬ it.layout.Describes t ∧
      call (DataRecordIter.next .le64) 0 it = .ok (some (.ok ⟨buf.take 65537, t⟩)) ∧
      call (DataRecordIter.nextPlain .le64) 0 it = .ok (some (.ok ⟨buf, t⟩)) ∧
      ¬ ∀ k, call (DataRecordIter.next .le64) k it = call (DataRecordIter.nextPlain .le64) k it :=
  allFixed_cuts_name (length_zeros_append 65536 [1, 65]) (getElem?_zeros_append 65536 1 [65])

end IpfixParser

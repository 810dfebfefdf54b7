import IpfixParser.Proof.Layout

/-!
# The records of a data set

What one call of `DataRecordIter::next` does (`DataRecordIter.Takes`), on any buffer; from it, when
iterating ends. On the buffers that a set can have, the records are those the buffer is a
concatenation of, and `FieldIter` cuts each of them where it was put together.
-/

namespace IpfixParser

open Lib

/-! ### The extent of a record -/

theorem varlenEnd_ne_panic {tg : Target} {b : Bytes} (hb : b.length ≤ tg.isizeMax) (o : Nat) :
    varlenEnd tg b o ≠ .panic := by
  rw [varlenEnd_eq hb]
  exact Outcome.okOr_ne_panic _ _

theorem endIn_le {b : Bytes} {x : Option Nat} {n : Nat} (h : endIn b x = .ok n) :
    x = some n ∧ n ≤ b.length := by
  cases x with
  | none => simp [endIn] at h
  | some o =>
    rw [endIn] at h
    split_ifs at h with hle
    cases h
    exact ⟨rfl, Nat.le_of_not_lt hle⟩

theorem endIn_ne_panic (b : Bytes) (x : Option Nat) : endIn b x ≠ .panic := by
  cases x with
  | none => simp [endIn]
  | some o =>
    rw [endIn]
    split_ifs <;> simp

theorem foldlM_prefixEnd_ge {b : Bytes} {gs : List Nat} {o o' : Nat}
    (h : gs.foldlM (fun o gap => prefixEnd b (o + gap)) o = some o') : o + gs.length ≤ o' := by
  induction gs generalizing o with
  | nil =>
    cases h
    exact Nat.le_refl _
  | cons g gs ih =>
    rw [List.foldlM_cons] at h
    obtain ⟨o₁, hend, h⟩ := Option.bind_eq_some_iff.mp h
    have hbounds := prefixEnd_bounds hend
    have := ih h
    simp only [List.length_cons]
    omega

theorem extentStep_ne_panic {tg : Target} {b : Bytes} (hb : b.length ≤ tg.isizeMax) (o : Nat)
    (f : FieldSpecifier) : extentStep tg b o f ≠ .panic := by
  rw [extentStep]
  split_ifs
  · exact varlenEnd_ne_panic hb o
  · exact Outcome.okOr_ne_panic _ _

theorem extentStep_ge {tg : Target} {b : Bytes} (hb : b.length ≤ tg.isizeMax) {o o' : Nat}
    {f : FieldSpecifier} (h : extentStep tg b o f = .ok o') : o + f.minSize ≤ o' := by
  rw [extentStep] at h
  split_ifs at h with hvar
  · rw [varlenEnd_eq hb] at h
    cases hend : prefixEnd b o with
    | none => simp [hend] at h
    | some o₁ =>
      rw [hend] at h
      cases h
      have hbounds := prefixEnd_bounds hend
      rw [FieldSpecifier.minSize, if_pos hvar]
      omega
  · rw [usizeCheckedAdd] at h
    split_ifs at h
    · cases h
      rw [FieldSpecifier.minSize, if_neg hvar]
    · simp at h

theorem foldlM_extentStep_ge {tg : Target} {b : Bytes} (hb : b.length ≤ tg.isizeMax)
    {fs : List FieldSpecifier} {o o' : Nat} (h : fs.foldlM (extentStep tg b) o = .ok o') :
    o + (fs.map FieldSpecifier.minSize).sum ≤ o' := by
  induction fs generalizing o with
  | nil =>
    cases h
    exact Nat.le_refl _
  | cons f fs ih =>
    rw [List.foldlM_cons] at h
    obtain ⟨o₁, hstep, h⟩ := Outcome.bind_eq_ok.mp h
    have := extentStep_ge hb hstep
    have := ih h
    simp only [List.map_cons, List.sum_cons]
    omega

theorem recordExtent_ne_panic {tg : Target} {b : Bytes} (hb : b.length ≤ tg.isizeMax)
    (t : TemplateRef) : recordExtent tg b t ≠ .panic := by
  refine Outcome.bind_ne_panic (Outcome.foldlM_ne_panic (extentStep_ne_panic hb) _ _) fun o _ => ?_
  split_ifs <;> simp

theorem recordExtent_bounds {tg : Target} {b : Bytes} (hb : b.length ≤ tg.isizeMax) {t : TemplateRef}
    {n : Nat} (h : recordExtent tg b t = .ok n) : t.minSize ≤ n ∧ n ≤ b.length := by
  obtain ⟨o, hfold, h⟩ := Outcome.bind_eq_ok.mp h
  split_ifs at h with hle
  cases h
  have hge := foldlM_extentStep_ge hb hfold
  exact ⟨by rw [TemplateRef.minSize]; omega, Nat.le_of_not_lt hle⟩

/-! ### One call -/

namespace DataRecordIter

variable {tg : Target} {t : TemplateRef} {it it' : DataRecordIter}

theorem extent_bounds (hinv : it.Inv t) (hbuf : it.buf.length ≤ tg.isizeMax)
    (hmin : t.minSize ≤ it.buf.length) {n : Nat} (h : it.extent tg = .ok n) :
    n ≤ it.buf.length ∧ (0 < t.minSize → 0 < n) := by
  have hsuits := hinv.layout
  have hsum := gaps_sum t.fields
  rw [extent] at h
  cases hlayout : it.layout with
  | allFixed =>
    simp only [hlayout, hinv.min, Outcome.ok.injEq] at h
    subst h
    exact ⟨hmin, fun h => h⟩
  | inline skips count trailing =>
    rw [hlayout] at hsuits
    obtain ⟨hne, hcount, hskips, hall, htrailing⟩ := hsuits
    simp only [hlayout, recordExtentInline_eq hbuf hcount hskips hall] at h
    obtain ⟨hwalk, hle⟩ := endIn_le h
    refine ⟨hle, fun _ => ?_⟩
    obtain ⟨o, hfold, rfl⟩ := Option.map_eq_some_iff.mp hwalk
    have hge : 0 + (gaps t.fields).1.length ≤ o := foldlM_prefixEnd_ge hfold
    have hpos := List.length_pos_iff.mpr hne
    simp only
    omega
  | fallback =>
    simp only [hlayout, hinv.template] at h
    obtain ⟨hge, hle⟩ := recordExtent_bounds hbuf h
    exact ⟨hle, fun h => Nat.lt_of_lt_of_le h hge⟩

theorem extent_ne_panic (hinv : it.Inv t) (hbuf : it.buf.length ≤ tg.isizeMax) :
    it.extent tg ≠ .panic := by
  have hsuits := hinv.layout
  rw [extent]
  cases hlayout : it.layout with
  | allFixed => simp
  | inline skips count trailing =>
    rw [hlayout] at hsuits
    obtain ⟨-, hcount, hskips, hall, -⟩ := hsuits
    simp only [recordExtentInline_eq hbuf hcount hskips hall]
    exact endIn_ne_panic _ _
  | fallback => exact recordExtent_ne_panic hbuf _

/-- The ways a call of `next` can go. -/
inductive Takes (tg : Target) (it : DataRecordIter) :
    Option (Result DataRecord) → DataRecordIter → Prop
  | padding : it.buf.length < it.minRecordSize → Takes tg it none { it with buf := [] }
  | error {e} : it.minRecordSize ≤ it.buf.length → it.extent tg = .err e →
      Takes tg it (some (.error e)) { it with buf := [] }
  | record {n} : it.minRecordSize ≤ it.buf.length → it.extent tg = .ok n → n ≤ it.buf.length →
      Takes tg it (some (.ok ⟨it.buf.take n, it.template⟩)) { it with buf := it.buf.drop n }

theorem next_takes (hinv : it.Inv t) (hbuf : it.buf.length ≤ tg.isizeMax) :
    ∃ x it', next tg it = .ok (x, it') ∧ Takes tg it x it' := by
  rw [next]
  by_cases hshort : it.buf.length < it.minRecordSize
  · exact ⟨_, _, if_pos hshort, .padding hshort⟩
  · have hmin := Nat.le_of_not_lt hshort
    rw [if_neg hshort]
    cases hext : it.extent tg with
    | ok n =>
      obtain ⟨hle, -⟩ := extent_bounds hinv hbuf (hinv.min ▸ hmin) hext
      refine ⟨_, _, ?_, .record hmin hext hle⟩
      simp [splitAt_eq hle]
    | err e => exact ⟨_, _, rfl, .error hmin hext⟩
    | panic => exact absurd hext (extent_ne_panic hinv hbuf)

theorem Takes.inv {x : Option (Result DataRecord)} (h : Takes tg it x it') (hinv : it.Inv t) :
    it'.Inv t ∧ it'.buf.length ≤ it.buf.length := by
  cases h with
  | padding => exact ⟨⟨hinv.template, hinv.min, hinv.layout⟩, Nat.zero_le _⟩
  | error => exact ⟨⟨hinv.template, hinv.min, hinv.layout⟩, Nat.zero_le _⟩
  | record => exact ⟨⟨hinv.template, hinv.min, hinv.layout⟩, by simp⟩

theorem next_keeps (hinv : it.Inv t) (hbuf : it.buf.length ≤ tg.isizeMax)
    {x : Option (Result DataRecord)} (h : next tg it = .ok (x, it')) :
    it'.Inv t ∧ it'.buf.length ≤ tg.isizeMax := by
  obtain ⟨x', it₁, hnext, htakes⟩ := next_takes hinv hbuf
  rw [h] at hnext
  cases hnext
  obtain ⟨hinv', hle⟩ := htakes.inv hinv
  exact ⟨hinv', Nat.le_trans hle hbuf⟩

theorem call_takes (hinv : it.Inv t) (hbuf : it.buf.length ≤ tg.isizeMax) {k : Nat}
    {x : Option (Result DataRecord)} (h : call (next tg) k it = .ok x) :
    ∃ it₁ it₂ : DataRecordIter, it₁.Inv t ∧ it₁.buf.length ≤ tg.isizeMax ∧ Takes tg it₁ x it₂ := by
  have hstep : ∀ it : DataRecordIter, it.Inv t ∧ it.buf.length ≤ tg.isizeMax →
      ∃ x it', next tg it = .ok (x, it') ∧ (∃ it₁ it₂ : DataRecordIter, it₁.Inv t ∧
        it₁.buf.length ≤ tg.isizeMax ∧ Takes tg it₁ x it₂) ∧
      it'.Inv t ∧ it'.buf.length ≤ tg.isizeMax := by
    intro it ⟨hinv, hbuf⟩
    obtain ⟨x, it', hnext, htakes⟩ := next_takes hinv hbuf
    exact ⟨x, it', hnext, ⟨it, it', hinv, hbuf, htakes⟩, next_keeps hinv hbuf hnext⟩
  obtain ⟨x', hcall, hx⟩ := call_spec hstep ⟨hinv, hbuf⟩ k
  rw [h] at hcall
  cases hcall
  exact hx

/-! ### Termination -/

theorem call_none (hpos : 0 < t.minSize) (hinv : it.Inv t) (hbuf : it.buf.length ≤ tg.isizeMax) :
    ∃ k ≤ it.buf.length, call (next tg) k it = .ok none := by
  induction hlen : it.buf.length using Nat.strongRecOn generalizing it with
  | ind n ih =>
    subst hlen
    obtain ⟨x, it', hnext, htakes⟩ := next_takes hinv hbuf
    cases htakes with
    | padding => exact ⟨0, Nat.zero_le _, call_zero_of_next hnext⟩
    | error hmin =>
      have hmin' : 0 < it.buf.length := Nat.lt_of_lt_of_le (hinv.min ▸ hpos) hmin
      refine ⟨1, hmin', ?_⟩
      have hempty : (0 : Nat) < it.minRecordSize := hinv.min ▸ hpos
      have hdone : next tg { it with buf := [] } = .ok (none, { it with buf := [] }) := by
        rw [next]
        exact if_pos hempty
      rw [call_succ_of_next hnext]
      exact call_zero_of_next hdone
    | @record n hmin hext hle =>
      have hn := (extent_bounds hinv hbuf (hinv.min ▸ hmin) hext).2 hpos
      have hshorter : (it.buf.drop n).length < it.buf.length := by
        rw [List.length_drop]
        omega
      have hinv' : Inv t { it with buf := it.buf.drop n } := ⟨hinv.template, hinv.min, hinv.layout⟩
      obtain ⟨k, hk, hcall⟩ := ih _ hshorter hinv' (Nat.le_trans (Nat.le_of_lt hshorter) hbuf) rfl
      refine ⟨k + 1, by omega, ?_⟩
      rw [call_succ_of_next hnext]
      exact hcall

theorem call_record_ne_nil (hpos : 0 < t.minSize) (hinv : it.Inv t)
    (hbuf : it.buf.length ≤ tg.isizeMax) {k : Nat} {r : DataRecord}
    (h : call (next tg) k it = .ok (some (.ok r))) : r.raw ≠ [] := by
  obtain ⟨it₁, it₂, hinv₁, hbuf₁, htakes⟩ := call_takes hinv hbuf h
  cases htakes with
  | @record n hmin hext hle =>
    obtain ⟨-, hn⟩ := extent_bounds hinv₁ hbuf₁ (hinv₁.min ▸ hmin) hext
    have hpos' := hn hpos
    intro hnil
    have := congrArg List.length hnil
    simp only [List.length_take, List.length_nil] at this
    omega

theorem call_of_minSize_eq_zero (tg : Target) (hzero : t.minSize = 0) (hinv : it.Inv t) (k : Nat) :
    call (next tg) k it = .ok (some (.ok ⟨[], t⟩)) := by
  have hlayout : it.layout = .allFixed := by
    have hsum := gaps_sum t.fields
    have hnil : (gaps t.fields).1 = [] := by
      rw [← List.length_eq_zero_iff]
      have : (t.fields.map FieldSpecifier.minSize).sum = 0 := hzero
      omega
    have hsuits := hinv.layout
    cases hlayout : it.layout with
    | allFixed => rfl
    | inline =>
      rw [hlayout] at hsuits
      exact absurd hnil hsuits.1
    | fallback =>
      rw [hlayout] at hsuits
      exact absurd hnil hsuits
  have hnext : next tg it = .ok (some (.ok ⟨[], t⟩), it) := by
    obtain ⟨buf, template, minRecordSize, layout⟩ := it
    obtain rfl : template = t := hinv.template
    obtain rfl : minRecordSize = 0 := hinv.min.trans hzero
    obtain rfl : layout = .allFixed := hlayout
    simp [next, extent, splitAt]
  induction k with
  | zero => exact call_zero_of_next hnext
  | succ k ih => rw [call_succ_of_next hnext, ih]

end DataRecordIter

/-! ### When iterating ends -/

theorem FieldSpecifier.minSize_pos_iff {f : FieldSpecifier} : 0 < f.minSize ↔ f.fieldLength ≠ 0 := by
  rw [minSize]
  split_ifs with hvar
  · simp [hvar, variableLength]
  · rw [Nat.pos_iff_ne_zero, ne_eq, ne_eq, ← UInt16.toNat_inj, UInt16.toNat_zero]

theorem TemplateRef.minSize_pos_iff {t : TemplateRef} :
    0 < t.minSize ↔ ∃ f ∈ t.fields, f.fieldLength ≠ 0 := by
  rw [minSize, Nat.pos_iff_ne_zero, ne_eq, List.sum_eq_zero_iff]
  simp only [List.mem_map, forall_exists_index, and_imp, forall_apply_eq_imp_iff₂, not_forall,
    exists_prop, ← ne_eq, ← Nat.pos_iff_ne_zero, FieldSpecifier.minSize_pos_iff]

theorem TemplateSetKind.length_fields_le {kind : TemplateSetKind} {b rest : Bytes}
    {fieldsBuf fieldsBuf' : List FieldSpecifier} {t : TemplateRecord}
    (h : kind.decodeInto b fieldsBuf = .ok (.ok (t, rest), fieldsBuf')) : t.fields.length ≤ 65535 :=
  ((kind.framing fieldsBuf.length).sound (decodeInto_ok_iff.mp ⟨fieldsBuf', h⟩)).1.header.u16

/-- Iterating over the records of a decoded template ends, a byte at least for each record, exactly if
some field of the template has a length. -/
theorem record_loop_ends_iff (tg : Target) {kind : TemplateSetKind} {b rest : Bytes}
    {fieldsBuf fieldsBuf' : List FieldSpecifier} {t : TemplateRecord}
    (h : kind.decodeInto b fieldsBuf = .ok (.ok (t, rest), fieldsBuf')) (buf : Bytes)
    (hbuf : buf.length ≤ tg.isizeMax) :
    ∃ it, DataRecordIter.new tg buf (.ofRecord t) = .ok it ∧
      (((∃ k ≤ buf.length, call (DataRecordIter.next tg) k it = .ok none) ∧
          ∀ k r, call (DataRecordIter.next tg) k it = .ok (some (.ok r)) → r.raw ≠ []) ↔
        ∃ f ∈ t.fields, f.fieldLength ≠ 0) := by
  have hcount : (TemplateRef.ofRecord t).fields.length ≤ 65535 := TemplateSetKind.length_fields_le h
  obtain ⟨it, hnew, rfl, hinv⟩ :=
    DataRecordIter.new_inv tg (TemplateRef.minSize_le_usizeMax hcount tg) buf
  refine ⟨it, hnew, ?_⟩
  have hpos : (∃ f ∈ t.fields, f.fieldLength ≠ 0) ↔ 0 < (TemplateRef.ofRecord t).minSize :=
    (TemplateRef.minSize_pos_iff (t := .ofRecord t)).symm
  rw [hpos]
  constructor
  · rintro ⟨⟨k, -, hk⟩, -⟩
    by_contra hzero
    have hrecord := DataRecordIter.call_of_minSize_eq_zero tg (Nat.eq_zero_of_not_pos hzero)
      hinv k
    simp [hk] at hrecord
  · intro hpos
    exact ⟨DataRecordIter.call_none hpos hinv hbuf,
      fun k r => DataRecordIter.call_record_ne_nil hpos hinv hbuf⟩

theorem record_loop_ends_iff_u32 :
    ∃ it, DataRecordIter.new .le64 [10, 0, 0, 1, 10, 0, 0, 2] ⟨256, 0, [⟨8, none, 4⟩]⟩ = .ok it ∧
      (((∃ k ≤ 8, call (DataRecordIter.next .le64) k it = .ok none) ∧
          ∀ k r, call (DataRecordIter.next .le64) k it = .ok (some (.ok r)) → r.raw ≠ []) ↔
        ∃ f ∈ [(⟨8, none, 4⟩ : FieldSpecifier)], f.fieldLength ≠ 0) := by
  have hdecode : TemplateSetKind.template.decodeInto [1, 0, 0, 1, 0, 8, 0, 4] [.empty] =
      .ok (.ok (⟨256, 0, [⟨8, none, 4⟩]⟩, []), [⟨8, none, 4⟩]) := rfl
  exact record_loop_ends_iff .le64 hdecode [10, 0, 0, 1, 10, 0, 0, 2] (by decide)

/-- Template 256 with one field of no bytes: an empty set has endless records. -/
theorem record_loop_endless :
    ∃ it, TemplateSetKind.template.decodeInto [1, 0, 0, 1, 0, 1, 0, 0] [.empty] =
        .ok (.ok (⟨256, 0, [⟨1, none, 0⟩]⟩, []), [⟨1, none, 0⟩]) ∧
      DataRecordIter.new .le64 [] ⟨256, 0, [⟨1, none, 0⟩]⟩ = .ok it ∧
      (∀ k, call (DataRecordIter.next .le64) k it = .ok (some (.ok ⟨[], ⟨256, 0, [⟨1, none, 0⟩]⟩⟩))) ∧
      ¬ ∃ k, call (DataRecordIter.next .le64) k it = .ok none := by
  obtain ⟨it, hnew, -, hinv⟩ := DataRecordIter.new_inv .le64
    (t := ⟨256, 0, [⟨1, none, 0⟩]⟩) (by decide) []
  have hcall := DataRecordIter.call_of_minSize_eq_zero .le64 rfl hinv
  refine ⟨it, rfl, hnew, hcall, ?_⟩
  rintro ⟨k, hk⟩
  rw [hcall k] at hk
  simp at hk

/-! ### What a set of records is -/

/-- The records of a set are the ones it is a concatenation of, and their fields the values they were
put together from. The set is one that `Set::decode` can return, and the template one that
`DataRecordIter::new` can add up the sizes of. -/
theorem dataRecordIter_grammar (tg : Target) (t : TemplateRef) (buf : Bytes)
    (hfield : ∃ f ∈ t.fields, f.fieldLength ≠ 0) (hbuf : buf.length ≤ 65531)
    (hfields : t.fields.length ≤ tg.usizeMax) :
    (t.fields.length ≤ 65535 → ∃ it, DataRecordIter.new tg buf t = .ok it) ∧
    ∀ it, DataRecordIter.new tg buf t = .ok it →
      (∃ rs : List DataRecord,
        (Yields (DataRecordIter.next tg) it (rs.map .ok) ∨
          Yields (DataRecordIter.next tg) it (rs.map .ok ++ [.error .unexpectedEof])) ∧
        rs.flatMap DataRecord.raw <+: buf ∧
        ∀ r ∈ rs, r.template = t ∧ ∃ es : List Encoded, List.Forall₂ Encoded.Fits t.fields es ∧
          r.raw = es.flatMap Encoded.bytes ∧
          Yields (FieldIter.next tg) r.fields ((List.zipWith Encoded.value t.fields es).map .ok)) ∧
      ∀ rs : List DataRecord, Yields (DataRecordIter.next tg) it (rs.map .ok) ↔
        ∃ pad, buf = rs.flatMap DataRecord.raw ++ pad ∧ pad.length < t.minSize ∧
          ∀ r ∈ rs, t.IsRecord r := by
  have hpos := TemplateRef.minSize_pos_iff.mpr hfield
  have hframing := t.framing hpos
  have hreads := DataRecordIter.readsFrames tg t hpos
  refine ⟨fun hcount => ?_, fun it hnew => ?_⟩
  · obtain ⟨it, hnew, -⟩ := DataRecordIter.new_inv tg (TemplateRef.minSize_le_usizeMax hcount tg) buf
    exact ⟨it, hnew⟩
  obtain ⟨hitbuf, hinv⟩ := DataRecordIter.inv_of_new hnew
  have hyields : ∀ items, Yields (DataRecordIter.next tg) it items ↔
      Frames t.padding t.cutRecord buf items := fun items =>
    hreads.yields_iff hframing ⟨hitbuf, hinv, hbuf⟩
  have hrecord : ∀ r, t.IsRecord r → r.template = t ∧ ∃ es : List Encoded,
      List.Forall₂ Encoded.Fits t.fields es ∧ r.raw = es.flatMap Encoded.bytes ∧
        Yields (FieldIter.next tg) r.fields ((List.zipWith Encoded.value t.fields es).map .ok) := by
    rintro ⟨raw, _⟩ ⟨rfl, es, henc, hraw⟩
    exact ⟨rfl, es, henc, hraw, FieldIter.yields hfields henc hraw⟩
  constructor
  · obtain ⟨items, hfr⟩ := hframing.total buf
    obtain ⟨rs, rfl | ⟨e, rfl⟩⟩ := hfr.shape
    · obtain ⟨pad, hsplit, -, hrs⟩ := hframing.frames_ok_iff.mp hfr
      exact ⟨rs, .inl ((hyields _).mpr hfr), ⟨pad, hsplit.symm⟩, fun r hr => hrecord r (hrs r hr)⟩
    · obtain ⟨rest, hsplit, -, hcut, hrs⟩ := hframing.frames_err_iff.mp hfr
      obtain ⟨rfl, -⟩ := endIn_walk_of_err hcut
      exact ⟨rs, .inr ((hyields _).mpr hfr), ⟨rest, hsplit.symm⟩, fun r hr => hrecord r (hrs r hr)⟩
  · intro rs
    rw [hyields, hframing.frames_ok_iff]
    rfl

theorem dataRecordIter_grammar_name :
    ∃ it, DataRecordIter.new .le64 [10, 0, 0, 1, 2, 65, 66, 0]
        ⟨256, 0, [⟨8, none, 4⟩, ⟨82, none, 65535⟩]⟩ = .ok it ∧
      Yields (DataRecordIter.next .le64) it
        [.ok ⟨[10, 0, 0, 1, 2, 65, 66], ⟨256, 0, [⟨8, none, 4⟩, ⟨82, none, 65535⟩]⟩⟩] := by
  obtain ⟨hnew, hgrammar⟩ := dataRecordIter_grammar .le64
    ⟨256, 0, [⟨8, none, 4⟩, ⟨82, none, 65535⟩]⟩ [10, 0, 0, 1, 2, 65, 66, 0]
    ⟨⟨8, none, 4⟩, by simp, by decide⟩ (by decide) (by decide)
  obtain ⟨it, hit⟩ := hnew (by decide)
  refine ⟨it, hit, ((hgrammar it hit).2 [_]).mpr ⟨[0], rfl, by decide, ?_⟩⟩
  rintro r (_ | ⟨_, ⟨⟩⟩)
  refine ⟨rfl, [.fixed [10, 0, 0, 1], .short [65, 66]], .cons ?_ (.cons ?_ .nil), rfl⟩
  · exact ⟨by decide, rfl⟩
  · exact ⟨rfl, by decide⟩

end IpfixParser

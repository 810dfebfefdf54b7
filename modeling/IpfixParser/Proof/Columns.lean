import IpfixParser.Proof.PlanReference

/-!
# Columns and the templates they come from

What a decoded buffer holds is a matter of the mappings and of the values they name, not of where
things stand: the mappings can be given in any order (`DecodePlan.build_perm`), and templates that carry
the mapped values in other places, between other fields, fill the same buffer (`decodeInto_layout`).
-/

namespace IpfixParser

open Lib

/-! ### The order of the mappings -/

theorem find?_matches_perm {mappings mappings' : List Mapping} (hperm : mappings.Perm mappings')
    (hnodup : (mappings.map Mapping.name).Nodup) (f : FieldSpecifier) :
    (mappings.find? fun m => m.matches f) = mappings'.find? fun m => m.matches f := by
  have hnodup' : (mappings'.map Mapping.name).Nodup := (hperm.map _).nodup_iff.mp hnodup
  apply Option.ext
  intro m
  rw [find?_matches_iff hnodup, find?_matches_iff hnodup', hperm.mem_iff]

/-- A plan does not depend on the order of its mappings, and neither does the error when there is none. -/
theorem DecodePlan.build_perm (t : TemplateRef) {mappings mappings' : List Mapping}
    (hperm : mappings.Perm mappings') : build t mappings = build t mappings' := by
  have hunused : (mappings.any fun m => !t.fields.any fun f => m.matches f) =
      mappings'.any fun m => !t.fields.any fun f => m.matches f := by
    rw [Bool.eq_iff_iff, List.any_eq_true, List.any_eq_true]
    simp only [hperm.mem_iff]
  unfold build
  by_cases hvar : t.fields.any fun f => f.fieldLength == variableLength
  · rw [if_pos hvar, if_pos hvar]
  rw [if_neg hvar, if_neg hvar]
  rcases checkDuplicates_spec mappings with ⟨hdup, hnot⟩ | ⟨hdup, hnodup⟩
  · rcases checkDuplicates_spec mappings' with ⟨hdup', -⟩ | ⟨-, hnodup'⟩
    · rw [hdup, hdup']
      rfl
    · exact absurd ((hperm.map _).nodup_iff.mpr hnodup') hnot
  · rcases checkDuplicates_spec mappings' with ⟨-, hnot'⟩ | ⟨hdup', -⟩
    · exact absurd ((hperm.map _).nodup_iff.mp hnodup) hnot'
    · have hfields : planField mappings = planField mappings' := by
        funext st f
        unfold planField
        rw [find?_matches_perm hperm hnodup]
      rw [hdup, hdup', hfields, hunused]

theorem DecodePlan.build_perm_port :
    build ⟨256, 0, [⟨8, none, 4⟩, ⟨4, none, 1⟩, ⟨7, none, 2⟩]⟩ [.new 8 4, .new 7 0] =
      .ok ⟨7, 8, [.swap .u32 1 0 4, .swap .u16 1 5 0]⟩ := by
  have hbuild : build ⟨256, 0, [⟨8, none, 4⟩, ⟨4, none, 1⟩, ⟨7, none, 2⟩]⟩ [.new 7 0, .new 8 4] =
      .ok ⟨7, 8, [.swap .u32 1 0 4, .swap .u16 1 5 0]⟩ := rfl
  rw [build_perm _ (List.Perm.swap (.new 7 0) (.new 8 4) [])]
  exact hbuild

/-! ### Two templates -/

section layout

variable {mappings : List Mapping} {fs fs' : List FieldSpecifier} {vs vs' : List Bytes}

/-- The same values of every mapped information element, in the same order. -/
def MappedAlike (mappings : List Mapping) (values values' : List FieldValue) : Prop :=
  ∀ m ∈ mappings,
    (values.filter fun x => x.name = m.name) = values'.filter fun x => x.name = m.name

theorem MappedAlike.symm {values values' : List FieldValue} (h : MappedAlike mappings values values') :
    MappedAlike mappings values' values := fun m hm => (h m hm).symm

theorem MappedAlike.mem {values values' : List FieldValue} (h : MappedAlike mappings values values')
    {m : Mapping} (hm : m ∈ mappings) {x : FieldValue} (hx : x ∈ values) (hname : m.name = x.name) :
    x ∈ values' := by
  have hfilter : x ∈ values.filter fun x => x.name = m.name :=
    List.mem_filter.mpr ⟨hx, decide_eq_true hname.symm⟩
  rw [h m hm] at hfilter
  exact (List.mem_filter.mp hfilter).1

theorem MappedAlike.field (h : MappedAlike mappings (fieldValues fs vs) (fieldValues fs' vs'))
    (hvs : Sized fs vs) (hvs' : Sized fs' vs') {m : Mapping} (hm : m ∈ mappings) {f : FieldSpecifier}
    (hf : f ∈ fs) (hname : m.name = f.name) :
    ∃ f' ∈ fs', m.name = f'.name ∧ f'.fieldLength = f.fieldLength := by
  obtain ⟨v, hmem⟩ := hvs.exists_mem hf
  have hv : v.length = f.fieldLength.toNat := (List.forall₂_iff_zip.mp hvs).2 hmem
  have hx := mem_fieldValues.mpr ⟨f, v, hmem, rfl⟩
  obtain ⟨f', hf', hname', hlen⟩ := mem_fieldValues_sized hvs' (h.mem hm hx hname)
  exact ⟨f', hf', hname.trans hname'.symm, UInt16.toNat_inj.mp (hlen.trans hv)⟩

theorem MappedAlike.disjointRanges (h : MappedAlike mappings (fieldValues fs vs) (fieldValues fs' vs'))
    (hvs : Sized fs vs) (hvs' : Sized fs' vs') (hdisj : DisjointRanges fs mappings) :
    DisjointRanges fs' mappings := by
  refine List.Pairwise.imp_of_mem ?_ hdisj
  intro m m' hm hm' hapart f hf f' hf' hname hname'
  obtain ⟨g, hg, hgname, hglen⟩ := h.symm.field hvs' hvs hm hf hname
  obtain ⟨g', hg', hgname', hglen'⟩ := h.symm.field hvs' hvs hm' hf' hname'
  have hranges := hapart g hg g' hg' hgname hgname'
  unfold Mapping.range at hranges ⊢
  rwa [hglen, hglen'] at hranges

theorem MappedAlike.largestEnd_le (h : MappedAlike mappings (fieldValues fs vs) (fieldValues fs' vs'))
    (hvs : Sized fs vs) (hvs' : Sized fs' vs') (hnodup : (mappings.map Mapping.name).Nodup) :
    largestEnd mappings fs ≤ largestEnd mappings fs' := by
  refine Nat.le_of_not_lt fun hlt => Nat.lt_irrefl (largestEnd mappings fs') ?_
  obtain ⟨f, hf, m, hm, hname, hend⟩ := (lt_largestEnd_iff hnodup fs _).mp hlt
  obtain ⟨f', hf', hname', hlen⟩ := h.field hvs hvs' hm hf hname
  exact (lt_largestEnd_iff hnodup fs' _).mpr ⟨f', hf', m, hm, hname', hlen ▸ hend⟩

theorem MappedAlike.lastAt_eq {values values' : List FieldValue} (h : MappedAlike mappings values values')
    {m : Mapping} (hm : m ∈ mappings) (j : Nat) : lastAt values m.name j = lastAt values' m.name j := by
  rw [← lastAt_filter values, h m hm, lastAt_filter]

theorem MappedAlike.writeAll_eq {e : Endian}
    (h : MappedAlike mappings (fieldValues fs vs) (fieldValues fs' vs'))
    (hnodup : (mappings.map Mapping.name).Nodup) (hvs : Sized fs vs) (hvs' : Sized fs' vs')
    (hdisj : DisjointRanges fs mappings) {dst : Bytes}
    (hwithin : ∀ w ∈ fieldWrites e mappings fs vs, w.Within dst.length)
    (hwithin' : ∀ w ∈ fieldWrites e mappings fs' vs', w.Within dst.length) :
    writeAll dst (fieldWrites e mappings fs vs) = writeAll dst (fieldWrites e mappings fs' vs') := by
  apply List.ext_getElem?
  intro i
  by_cases hi : ∃ x ∈ fieldValues fs vs, ∃ m ∈ mappings, m.name = x.name ∧
      i ∈ span m.dstOffset.toNat x.data.length
  · obtain ⟨x, hx, m, hm, hname, hlow, hhigh⟩ := hi
    obtain ⟨j, rfl⟩ := Nat.exists_eq_add_of_le hlow
    have hj := Nat.lt_of_add_lt_add_left hhigh
    obtain ⟨y, hlast, hbyte⟩ := getElem?_writeAll_fieldWrites hdisj hnodup hvs hwithin hm hx hname hj
    obtain ⟨y', hlast', hbyte'⟩ := getElem?_writeAll_fieldWrites (h.disjointRanges hvs hvs' hdisj) hnodup
      hvs' hwithin' hm (h.mem hm hx hname) hname hj
    rw [h.lastAt_eq hm, hlast', Option.some_inj] at hlast
    rw [hbyte, hbyte', hlast]
  · have hkeep : ∀ {gs us}, MappedAlike mappings (fieldValues gs us) (fieldValues fs vs) →
        ∀ w ∈ fieldWrites e mappings gs us, i ∉ w.places := by
      intro gs us hgs w hw hplace
      rw [fieldWrites_eq] at hw
      obtain ⟨x, hx, hw⟩ := List.mem_filterMap.mp hw
      obtain ⟨m, hm, hname, rfl⟩ := (FieldValue.write_eq_some_iff hnodup).mp hw
      unfold Write.places at hplace
      rw [length_nativeBytes] at hplace
      exact hi ⟨x, hgs.mem hm hx hname, m, hm, hname, hplace⟩
    rw [getElem?_writeAll_of_notMem hwithin (hkeep fun _ _ => rfl),
      getElem?_writeAll_of_notMem hwithin' (hkeep h.symm)]

end layout

/-- Records of two templates with the same mapped values, those of one information element in the same
order, in whatever places and between whatever other fields, do the same to a buffer. -/
theorem decodeInto_layout (tg : Target) {mappings : List Mapping} {t t' : TemplateRef}
    {plan plan' : DecodePlan} (hbuild : DecodePlan.build t mappings = .ok plan)
    (hbuild' : DecodePlan.build t' mappings = .ok plan')
    (hfields : t.fields.length ≤ tg.usizeMax) (hfields' : t'.fields.length ≤ tg.usizeMax)
    (hdisj : DisjointRanges t.fields mappings) {buf buf' : Bytes} (hbuf : buf.length ≤ tg.isizeMax)
    (hbuf' : buf'.length ≤ tg.isizeMax) {it it' : DataRecordIter}
    (hnew : DataRecordIter.new tg buf t = .ok it) (hnew' : DataRecordIter.new tg buf' t' = .ok it')
    {k k' : Nat} {r r' : DataRecord} (hr : call (DataRecordIter.next tg) k it = .ok (some (.ok r)))
    (hr' : call (DataRecordIter.next tg) k' it' = .ok (some (.ok r'))) :
    ∃ values values' : List FieldValue, Yields (FieldIter.next tg) r.fields (values.map .ok) ∧
      Yields (FieldIter.next tg) r'.fields (values'.map .ok) ∧
      (MappedAlike mappings values values' →
        plan.dstBufLen = plan'.dstBufLen ∧ ∀ dst, r.decodeInto tg plan dst = r'.decodeInto tg plan' dst) := by
  obtain ⟨st, rfl, hst, hmax, hvar, hnodup, -⟩ := DecodePlan.inv_of_build hbuild
  obtain ⟨st', rfl, hst', hmax', hvar', -⟩ := DecodePlan.inv_of_build hbuild'
  obtain ⟨vs, hvs, rfl⟩ := DataRecordIter.record_sized hvar hbuf hnew hr
  obtain ⟨vs', hvs', rfl⟩ := DataRecordIter.record_sized hvar' hbuf' hnew' hr'
  refine ⟨_, _, hvs.yields hvar hfields, hvs'.yields hvar' hfields', fun hsame => ?_⟩
  have hend : st.dstMax.toNat = st'.dstMax.toNat := by
    rw [hmax, hmax']
    exact Nat.le_antisymm (hsame.largestEnd_le hvs hvs' hnodup) (hsame.symm.largestEnd_le hvs' hvs hnodup)
  refine ⟨UInt32.toNat_inj.mp hend, fun dst => ?_⟩
  have hlen : ¬ vs.flatten.length < st.srcOff.toNat := by
    rw [hvs.length_flatten, hst.srcOff]
    exact Nat.lt_irrefl _
  have hlen' : ¬ vs'.flatten.length < st'.srcOff.toNat := by
    rw [hvs'.length_flatten, hst'.srcOff]
    exact Nat.lt_irrefl _
  show DecodePlan.apply tg _ vs.flatten dst = DecodePlan.apply tg _ vs'.flatten dst
  by_cases hdst : dst.length < st.dstMax.toNat
  · have hshort := @DecodePlan.apply_spec tg ⟨st.srcOff, st.dstMax, st.ops⟩ hst.within vs.flatten dst
    have hshort' := @DecodePlan.apply_spec tg ⟨st'.srcOff, st'.dstMax, st'.ops⟩ hst'.within vs'.flatten dst
    rw [if_neg hlen, if_pos hdst] at hshort
    rw [if_neg hlen', if_pos (hend ▸ hdst)] at hshort'
    rw [hshort, hshort']
  · have hdst := Nat.le_of_not_lt hdst
    have hwrites := hst.apply_eq tg hvs [] hdst
    have hwrites' := hst'.apply_eq tg hvs' [] (hend ▸ hdst)
    rw [List.append_nil] at hwrites hwrites'
    rw [hwrites, hwrites', hsame.writeAll_eq hnodup hvs hvs' hdisj
      (fun w hw => fieldWrites_within hst hvs hdst hw)
      fun w hw => fieldWrites_within hst' hvs' (hend ▸ hdst) hw]

theorem decodeInto_layout_port :
    DataRecord.decodeInto .le64
        ⟨[0, 80, 10, 0, 0, 1, 0, 53], ⟨256, 0, [⟨7, none, 2⟩, ⟨8, none, 4⟩, ⟨7, none, 2⟩]⟩⟩
        ⟨8, 8, [.swap .u16 1 0 0, .swap .u32 1 2 4, .swap .u16 1 6 0]⟩ =
      DataRecord.decodeInto .le64
        ⟨[0, 80, 0, 53, 17, 10, 0, 0, 1],
          ⟨257, 0, [⟨7, none, 2⟩, ⟨7, none, 2⟩, ⟨4, none, 1⟩, ⟨8, none, 4⟩]⟩⟩
        ⟨9, 8, [.swap .u16 1 0 0, .swap .u16 1 2 0, .swap .u32 1 5 4]⟩ := by
  let t : TemplateRef := ⟨256, 0, [⟨7, none, 2⟩, ⟨8, none, 4⟩, ⟨7, none, 2⟩]⟩
  let t' : TemplateRef := ⟨257, 0, [⟨7, none, 2⟩, ⟨7, none, 2⟩, ⟨4, none, 1⟩, ⟨8, none, 4⟩]⟩
  have hbuild : DecodePlan.build t [.new 7 0, .new 8 4] =
      .ok ⟨8, 8, [.swap .u16 1 0 0, .swap .u32 1 2 4, .swap .u16 1 6 0]⟩ := rfl
  have hbuild' : DecodePlan.build t' [.new 7 0, .new 8 4] =
      .ok ⟨9, 8, [.swap .u16 1 0 0, .swap .u16 1 2 0, .swap .u32 1 5 4]⟩ := rfl
  have hdisj : DisjointRanges t.fields [.new 7 0, .new 8 4] := .pair (by decide)
  have hnew : DataRecordIter.new .le64 [0, 80, 10, 0, 0, 1, 0, 53] t = .ok ⟨_, _, 8, .allFixed⟩ := rfl
  have hnew' : DataRecordIter.new .le64 [0, 80, 0, 53, 17, 10, 0, 0, 1] t' =
      .ok ⟨_, _, 9, .allFixed⟩ := rfl
  have hr : call (DataRecordIter.next .le64) 0 ⟨[0, 80, 10, 0, 0, 1, 0, 53], t, 8, .allFixed⟩ =
      .ok (some (.ok ⟨[0, 80, 10, 0, 0, 1, 0, 53], t⟩)) := rfl
  have hr' : call (DataRecordIter.next .le64) 0 ⟨[0, 80, 0, 53, 17, 10, 0, 0, 1], t', 9, .allFixed⟩ =
      .ok (some (.ok ⟨[0, 80, 0, 53, 17, 10, 0, 0, 1], t'⟩)) := rfl
  have hvs : Sized t.fields [[0, 80], [10, 0, 0, 1], [0, 53]] := .cons rfl (.cons rfl (.cons rfl .nil))
  have hvs' : Sized t'.fields [[0, 80], [0, 53], [17], [10, 0, 0, 1]] :=
    .cons rfl (.cons rfl (.cons rfl (.cons rfl .nil)))
  obtain ⟨values, values', hvalues, hvalues', hlayout⟩ := decodeInto_layout .le64 hbuild hbuild' (by decide)
    (by decide) hdisj (by decide) (by decide) hnew hnew' hr hr'
  have heq := hvalues.unique (hvs.yields (by decide) (by decide))
  have heq' := hvalues'.unique (hvs'.yields (by decide) (by decide))
  rw [List.map_inj_right (fun _ _ h => Except.ok.inj h)] at heq heq'
  rw [heq, heq'] at hlayout
  exact funext (hlayout (by unfold MappedAlike; decide)).2

end IpfixParser

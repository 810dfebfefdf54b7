import Mathlib.Data.List.Find
import IpfixParser.Proof.PlanBuild
import IpfixParser.Proof.Records

/-!
# Decoding into a buffer

`DecodePlan::apply` makes the writes of the plan's operations, and by the invariant of
`DecodePlan::build` these are the writes of the mapped fields' values. When no two mappings want the
same place, each place holds what the last value for it has there, and without repetitions each value is
where its mapping says, as the accessors of `FieldValue` give it.
-/

namespace IpfixParser

open Lib

/-! ### Running operations -/

theorem swapChunks_eq {ε : Type} (e : Endian) (w n : Nat) {src dst : Bytes}
    (hdst : dst.length = w * n) :
    (swapChunks e w n src dst : Outcome ε Bytes) = .ok (swapBytes e w n src) := by
  induction n generalizing src dst with
  | zero =>
    obtain rfl := List.eq_nil_of_length_eq_zero hdst
    rfl
  | succ n ih =>
    rw [Nat.mul_succ] at hdst
    have hchunk : (dst.take w).length = (toNe e w (fromBe (src.take w))).length := by
      rw [List.length_take, length_toNe]
      omega
    have hrest : (dst.drop w).length = w * n := by
      rw [List.length_drop]
      omega
    rw [swapChunks, copyFromSlice_eq hchunk, Outcome.ok_bind, ih hrest]
    rfl

theorem swapRun_eq {ε : Type} (e : Endian) {w n : Nat} (hw : 0 < w) {src dst : Bytes}
    (hsrc : src.length = w * n) (hdst : dst.length = w * n) :
    (swapRun e w src dst : Outcome ε Bytes) = .ok (swapBytes e w n src) := by
  have hcount : min (src.length / w) (dst.length / w) = n := by
    rw [hsrc, hdst, Nat.mul_div_cancel_left n hw, Nat.min_self]
  have hlen : debugAssert (ε := ε) (src.length == dst.length) = .ok () := by
    simp [debugAssert, hsrc, hdst]
  have hmod : debugAssert (ε := ε) (src.length % w == 0) = .ok () := by
    simp [debugAssert, hsrc]
  unfold swapRun
  rw [hlen, hmod, hcount]
  exact swapChunks_eq e w n hdst

theorem applySwap_eq {ε : Type} (tg : Target) {w : Nat} (hw : 0 < w) {n s d : Nat} {src dst : Bytes}
    (hs : s + w * n ≤ src.length) (hd : d + w * n ≤ dst.length) (hsrc : src.length ≤ tg.usizeMax)
    (hdst : dst.length ≤ tg.usizeMax) :
    (applySwap tg w (swapRun tg.endian w) n s d src dst : Outcome ε Bytes) =
      .ok (splice dst d (swapBytes tg.endian w n ((src.drop s).take (w * n)))) := by
  have hsource : ((src.drop s).take (w * n)).length = w * n := by
    rw [List.length_take, List.length_drop]
    omega
  have htarget : ((dst.drop d).take (w * n)).length = w * n := by
    rw [List.length_take, List.length_drop]
    omega
  unfold applySwap
  rw [usizeMul_eq (by omega), Outcome.ok_bind, usizeAdd_eq (by omega), Outcome.ok_bind,
    slice_eq (Nat.le_add_right _ _) hs, Outcome.ok_bind, Outcome.ok_bind, usizeAdd_eq (by omega),
    Outcome.ok_bind, slice_eq (Nat.le_add_right _ _) hd, Outcome.ok_bind, Nat.add_sub_cancel_left,
    Nat.add_sub_cancel_left, swapRun_eq tg.endian hw hsource htarget]
  rfl

theorem applyOp_eq {ε : Type} (tg : Target) {src dst : Bytes} {op : Op}
    (h : op.Within src.length dst.length) (hsrc : src.length ≤ tg.usizeMax)
    (hdst : dst.length ≤ tg.usizeMax) :
    (applyOp tg src dst op : Outcome ε Bytes) =
      .ok (splice dst (op.write tg.endian src).1 (op.write tg.endian src).2) := by
  obtain ⟨hs, hd⟩ := h
  cases op with
  | copy s d len =>
    have hs' : s.toNat + len.toNat ≤ src.length := hs
    have hd' : d.toNat + len.toNat ≤ dst.length := hd
    have hlen : ((dst.drop d.toNat).take len.toNat).length =
        ((src.drop s.toNat).take len.toNat).length := by
      simp only [List.length_take, List.length_drop]
      omega
    rw [applyOp, usizeAdd_eq (by omega), Outcome.ok_bind, slice_eq (Nat.le_add_right _ _) hd',
      Outcome.ok_bind, usizeAdd_eq (by omega), Outcome.ok_bind,
      slice_eq (Nat.le_add_right _ _) hs', Outcome.ok_bind, Nat.add_sub_cancel_left,
      Nat.add_sub_cancel_left, copyFromSlice_eq hlen]
    rfl
  | swap w count s d =>
    cases w with
    | u16 => exact applySwap_eq tg (by decide) hs hd hsrc hdst
    | u32 => exact applySwap_eq tg (by decide) hs hd hsrc hdst
    | u64 => exact applySwap_eq tg (by decide) hs hd hsrc hdst
    | u128 => exact applySwap_eq tg (by decide) hs hd hsrc hdst

theorem applyOps_eq {ε : Type} (tg : Target) {src dst : Bytes} {ops : List Op}
    (h : ∀ op ∈ ops, op.Within src.length dst.length) (hsrc : src.length ≤ tg.usizeMax)
    (hdst : dst.length ≤ tg.usizeMax) :
    (ops.foldlM (applyOp tg src) dst : Outcome ε Bytes) =
      .ok (writeAll dst (ops.map (Op.write tg.endian src))) := by
  induction ops generalizing dst with
  | nil => rfl
  | cons op ops ih =>
    have hop := h op (by simp)
    have hlen : (splice dst (op.write tg.endian src).1 (op.write tg.endian src).2).length =
        dst.length := by
      apply length_splice
      rw [Op.write_end tg.endian hop.1]
      exact hop.2
    rw [List.foldlM_cons, applyOp_eq tg hop hsrc hdst, Outcome.ok_bind]
    apply ih
    · intro op' hop'
      rw [hlen]
      exact h op' (by simp [hop'])
    · rw [hlen]
      exact hdst

theorem DecodePlan.apply_spec (tg : Target) {plan : DecodePlan}
    (h : ∀ op ∈ plan.ops, op.Within plan.srcRecordLen.toNat plan.dstBufLen.toNat) (src dst : Bytes) :
    plan.apply tg src dst =
      if src.length < plan.srcRecordLen.toNat then .ok (.error .unexpectedEof, dst)
      else if dst.length < plan.dstBufLen.toNat then .ok (.error .destinationBufferTooSmall, dst)
      else .ok (.ok (), writeAll (dst.take plan.dstBufLen.toNat)
        (plan.ops.map (Op.write tg.endian (src.take plan.srcRecordLen.toNat))) ++
          dst.drop plan.dstBufLen.toNat) := by
  have hmax := tg.usizeMax_ge
  have hsrcLen := plan.srcRecordLen.toNat_lt
  have hdstLen := plan.dstBufLen.toNat_lt
  unfold apply
  by_cases hsrc : src.length < plan.srcRecordLen.toNat
  · have hget : getTo src plan.srcRecordLen.toNat = none := if_neg (Nat.not_le_of_lt hsrc)
    rw [if_pos hsrc]
    simp only [hget, Outcome.pure_eq]
  rw [if_neg hsrc]
  have hget : getTo src plan.srcRecordLen.toNat = some (src.take plan.srcRecordLen.toNat) :=
    if_pos (Nat.le_of_not_lt hsrc)
  by_cases hdst : dst.length < plan.dstBufLen.toNat
  · have hget' : getTo dst plan.dstBufLen.toNat = none := if_neg (Nat.not_le_of_lt hdst)
    rw [if_pos hdst]
    simp only [hget, hget', Outcome.pure_eq]
  rw [if_neg hdst]
  have hget' : getTo dst plan.dstBufLen.toNat = some (dst.take plan.dstBufLen.toNat) :=
    if_pos (Nat.le_of_not_lt hdst)
  have hsource : (src.take plan.srcRecordLen.toNat).length = plan.srcRecordLen.toNat :=
    List.length_take_of_le (Nat.le_of_not_lt hsrc)
  have hwindow : (dst.take plan.dstBufLen.toNat).length = plan.dstBufLen.toNat :=
    List.length_take_of_le (Nat.le_of_not_lt hdst)
  have hwithin : ∀ op ∈ plan.ops, op.Within (src.take plan.srcRecordLen.toNat).length
      (dst.take plan.dstBufLen.toNat).length := by rwa [hsource, hwindow]
  have hops := applyOps_eq (ε := Empty) tg hwithin (by omega) (by omega)
  simp only [hget, hget', hops, Outcome.ok_bind, Outcome.pure_eq]

/-! ### The writes of a template's values -/

/-- Where a mapping wants a field's value. -/
def Mapping.range (m : Mapping) (f : FieldSpecifier) := span m.dstOffset.toNat f.fieldLength.toNat

/-- No two mappings want values at the same place. -/
def DisjointRanges (fs : List FieldSpecifier) (mappings : List Mapping) : Prop :=
  mappings.Pairwise fun m m' => ∀ f ∈ fs, ∀ f' ∈ fs, m.name = f.name → m'.name = f'.name →
    Apart (m.range f) (m'.range f')

theorem DisjointRanges.forall_ne {fs : List FieldSpecifier} {mappings : List Mapping}
    (h : DisjointRanges fs mappings) {m m' : Mapping} (hm : m ∈ mappings) (hm' : m' ∈ mappings)
    (hne : m ≠ m') : ∀ f ∈ fs, ∀ f' ∈ fs, m.name = f.name → m'.name = f'.name →
      Apart (m.range f) (m'.range f') := by
  have hsymm : Std.Symm fun m m' : Mapping => ∀ f ∈ fs, ∀ f' ∈ fs, m.name = f.name →
      m'.name = f'.name → Apart (m.range f) (m'.range f') :=
    ⟨fun _ _ h f hf f' hf' hn hn' => (h f' hf' f hf hn' hn).symm⟩
  exact List.Pairwise.forall h hm hm' hne

theorem DisjointRanges.pair {fs : List FieldSpecifier} {m m' : Mapping}
    (h : ∀ f ∈ fs, m.name = f.name → m.dstOffset.toNat + f.fieldLength.toNat ≤ m'.dstOffset.toNat) :
    DisjointRanges fs [m, m'] := by
  refine List.pairwise_pair.mpr ?_
  intro f hf f' _ hname _ i hi hi'
  exact Nat.not_le_of_lt hi.2 (Nat.le_trans (h f hf hname) hi'.1)

section writes

variable {e : Endian} {mappings : List Mapping} {fs : List FieldSpecifier} {vs : List Bytes}

theorem fieldWrite_eq_some {x : FieldSpecifier × Bytes} {w : Write UInt8}
    (h : fieldWrite e mappings x = some w) :
    ∃ m ∈ mappings, m.name = x.1.name ∧ (mappings.find? fun m => m.matches x.1) = some m ∧
      w = (m.dstOffset.toNat, nativeBytes e x.2) := by
  obtain ⟨m, hfind, rfl⟩ := Option.map_eq_some_iff.mp h
  have hmatch := List.find?_some hfind
  exact ⟨m, List.mem_of_find?_eq_some hfind, Mapping.matches_iff.mp hmatch, hfind, rfl⟩

theorem find?_name_iff (hnodup : (mappings.map Mapping.name).Nodup)
    {name : UInt16 × Option UInt32} {m : Mapping} :
    (mappings.find? fun m => m.name = name) = some m ↔ m ∈ mappings ∧ m.name = name := by
  constructor
  · intro hfind
    exact ⟨List.mem_of_find?_eq_some hfind, by simpa using List.find?_some hfind⟩
  · rintro ⟨hm, hname⟩
    have hsome : (mappings.find? fun m => m.name = name).isSome :=
      List.find?_isSome.mpr ⟨m, hm, by simpa using hname⟩
    obtain ⟨m', hfind⟩ := Option.isSome_iff_exists.mp hsome
    have hname' : m'.name = name := by simpa using List.find?_some hfind
    rwa [List.inj_on_of_nodup_map hnodup (List.mem_of_find?_eq_some hfind) hm
      (hname'.trans hname.symm)] at hfind

theorem find?_matches (mappings : List Mapping) (f : FieldSpecifier) :
    (mappings.find? fun m => m.matches f) = mappings.find? fun m => m.name = f.name := by
  congr 1
  funext m
  rw [Bool.eq_iff_iff, Mapping.matches_iff, decide_eq_true_eq]

theorem find?_matches_iff (hnodup : (mappings.map Mapping.name).Nodup) {f : FieldSpecifier}
    {m : Mapping} :
    (mappings.find? fun m => m.matches f) = some m ↔ m ∈ mappings ∧ m.name = f.name := by
  rw [find?_matches, find?_name_iff hnodup]

theorem fieldWrites_within {st : PlanState} (hst : st.Inv mappings fs) (hvs : Sized fs vs) {n : Nat}
    (hn : st.dstMax.toNat ≤ n) {w : Write UInt8} (hw : w ∈ fieldWrites e mappings fs vs) :
    w.Within n := by
  obtain ⟨⟨f, v⟩, hmem, hw⟩ := List.mem_filterMap.mp hw
  obtain ⟨m, -, -, hfind, rfl⟩ := fieldWrite_eq_some hw
  have hv : v.length = f.fieldLength.toNat := (List.forall₂_iff_zip.mp hvs).2 hmem
  have hfits := hst.fits f (List.of_mem_zip hmem).1 m hfind
  rw [Write.Within, length_nativeBytes, hv]
  exact Nat.le_trans hfits hn

end writes

/-- Running a plan makes the writes of its template's values. -/
theorem PlanState.Inv.apply_eq (tg : Target) {mappings : List Mapping} {fs : List FieldSpecifier}
    {st : PlanState} (hst : st.Inv mappings fs) {vs : List Bytes} (hvs : Sized fs vs) (rest : Bytes)
    {dst : Bytes} (hdst : st.dstMax.toNat ≤ dst.length) :
    DecodePlan.apply tg ⟨st.srcOff, st.dstMax, st.ops⟩ (vs.flatten ++ rest) dst =
      .ok (.ok (), writeAll dst (fieldWrites tg.endian mappings fs vs)) := by
  have hwindow : (dst.take st.dstMax.toNat).length = st.dstMax.toNat := List.length_take_of_le hdst
  have hsrc : vs.flatten.length = st.srcOff.toNat := hvs.length_flatten.trans hst.srcOff.symm
  have hwithin : ∀ w ∈ fieldWrites tg.endian mappings fs vs,
      w.Within (dst.take st.dstMax.toNat).length :=
    fun w hw => fieldWrites_within hst hvs (Nat.le_of_eq hwindow.symm) hw
  have hops : ∀ op ∈ (DecodePlan.mk st.srcOff st.dstMax st.ops).ops,
      op.Within st.srcOff.toNat st.dstMax.toNat := hst.within
  have happly := DecodePlan.apply_spec tg hops (vs.flatten ++ rest) dst
  have hwrites := hst.writes tg.endian [] hvs (Nat.le_of_eq hwindow.symm)
  rw [List.append_nil] at hwrites
  simp only at happly
  rw [if_neg (by simp [hsrc]), if_neg (Nat.not_lt_of_le hdst), List.take_left' hsrc, hwrites,
    ← writeAll_append_right hwithin, List.take_append_drop] at happly
  exact happly

/-! ### The records of a template without variable-length fields -/

theorem Sized.exists {fs : List FieldSpecifier} {b : Bytes}
    (h : b.length = (fs.map fun f => f.fieldLength.toNat).sum) : ∃ vs, Sized fs vs ∧ b = vs.flatten := by
  induction fs generalizing b with
  | nil => exact ⟨[], .nil, List.eq_nil_of_length_eq_zero h⟩
  | cons f fs ih =>
    rw [List.map_cons, List.sum_cons] at h
    have hrest : (b.drop f.fieldLength.toNat).length = (fs.map fun f => f.fieldLength.toNat).sum := by
      rw [List.length_drop]
      omega
    obtain ⟨vs, hvs, hb⟩ := ih hrest
    refine ⟨b.take f.fieldLength.toNat :: vs, .cons ?_ hvs, ?_⟩
    · rw [List.length_take]
      omega
    · rw [List.flatten_cons, ← hb, List.take_append_drop]

theorem Sized.exists_mem {fs : List FieldSpecifier} {vs : List Bytes} (h : Sized fs vs)
    {f : FieldSpecifier} (hf : f ∈ fs) : ∃ v, (f, v) ∈ fs.zip vs := by
  rw [← List.map_fst_zip (Nat.le_of_eq h.length_eq)] at hf
  obtain ⟨⟨_, v⟩, hmem, rfl⟩ := List.mem_map.mp hf
  exact ⟨v, hmem⟩

theorem Sized.encodes {t : TemplateRef} {vs : List Bytes} (h : Sized t.fields vs)
    (hvar : ∀ f ∈ t.fields, f.fieldLength ≠ variableLength) : t.Encodes (vs.map .fixed) := by
  unfold TemplateRef.Encodes
  rw [List.forall₂_map_right_iff, List.forall₂_iff_zip]
  obtain ⟨hlen, hvs⟩ := List.forall₂_iff_zip.mp h
  exact ⟨hlen, fun hmem => ⟨hvar _ (List.of_mem_zip hmem).1, hvs hmem⟩⟩

theorem sum_minSize {fs : List FieldSpecifier} (h : ∀ f ∈ fs, f.fieldLength ≠ variableLength) :
    (fs.map FieldSpecifier.minSize).sum = (fs.map fun f => f.fieldLength.toNat).sum := by
  congr 1
  apply List.map_congr_left
  intro f hf
  rw [FieldSpecifier.minSize, if_neg (h f hf)]

theorem DataRecordIter.call_fixed {tg : Target} {t : TemplateRef} {it : DataRecordIter}
    (hvar : ∀ f ∈ t.fields, f.fieldLength ≠ variableLength) (hinv : it.Inv t)
    (hbuf : it.buf.length ≤ tg.isizeMax) {k : Nat} {r : DataRecord}
    (h : call (next tg) k it = .ok (some (.ok r))) :
    r.template = t ∧ r.raw.length = (t.fields.map fun f => f.fieldLength.toNat).sum := by
  obtain ⟨it₁, it₂, hinv₁, -, htakes⟩ := call_takes hinv hbuf h
  cases htakes with
  | @record n hmin hext hle =>
    refine ⟨hinv₁.template, ?_⟩
    show (it₁.buf.take n).length = _
    have hsuits := hinv₁.layout
    have hgaps := gaps_eq_nil_iff.mpr hvar
    -- without variable-length fields, only one layout suits the template
    cases hlayout : it₁.layout with
    | allFixed =>
      simp only [extent, hlayout, Outcome.ok.injEq] at hext
      rw [List.length_take_of_le hle, ← hext, hinv₁.min]
      exact sum_minSize hvar
    | inline =>
      rw [hlayout] at hsuits
      exact absurd hgaps hsuits.1
    | fallback =>
      rw [hlayout] at hsuits
      exact absurd hgaps hsuits

theorem DataRecordIter.record_sized {tg : Target} {t : TemplateRef} {it : DataRecordIter} {buf : Bytes}
    (hvar : ∀ f ∈ t.fields, f.fieldLength ≠ variableLength) (hbuf : buf.length ≤ tg.isizeMax)
    (hnew : DataRecordIter.new tg buf t = .ok it) {k : Nat} {r : DataRecord}
    (hr : call (next tg) k it = .ok (some (.ok r))) :
    ∃ vs, Sized t.fields vs ∧ r = ⟨vs.flatten, t⟩ := by
  obtain ⟨rfl, hinv⟩ := inv_of_new hnew
  obtain ⟨htemplate, hlen⟩ := call_fixed hvar hinv hbuf hr
  obtain ⟨vs, hvs, hraw⟩ := Sized.exists hlen
  refine ⟨vs, hvs, ?_⟩
  rw [← hraw, ← htemplate]

/-! ### The values of a record -/

/-- The information element of a field value. -/
def FieldValue.name (f : FieldValue) : UInt16 × Option UInt32 :=
  (f.informationElementId, f.enterpriseNumber)

/-- `got` is what the accessors say of a field's value: the integer in the byte order of the machine
when it has the size of one, and the bytes themselves otherwise. -/
structure Delivered (e : Endian) (f : FieldValue) (got : Bytes) : Prop where
  length : got.length = f.data.length
  u8 : f.data.length = 1 → f.asU8 = some (UInt8.ofNat (fromNe e got))
  u16 : f.data.length = 2 → f.asU16 = some (UInt16.ofNat (fromNe e got))
  u32 : f.data.length = 4 → f.asU32 = some (UInt32.ofNat (fromNe e got))
  u64 : f.data.length = 8 → f.asU64 = some (UInt64.ofNat (fromNe e got))
  u128 : f.data.length = 16 → f.asU128 = some (BitVec.ofNat 128 (fromNe e got))
  other : f.data.length ∉ [1, 2, 4, 8, 16] → got = f.data

theorem fromNe_nativeBytes {e : Endian} {v : Bytes} (h : v.length ∈ [2, 4, 8, 16]) :
    fromNe e (nativeBytes e v) = fromBe v := by
  rw [nativeBytes, if_pos h, fromNe_toNe, Nat.mod_eq_of_lt (fromBe_lt v)]

theorem fromNe_singleton (e : Endian) (b : UInt8) : fromNe e [b] = b.toNat := by
  cases e <;> simp [fromNe, fromBe]

theorem FieldValue.delivered (e : Endian) (f : FieldValue) : Delivered e f (nativeBytes e f.data) where
  length := length_nativeBytes e f.data
  u8 := by
    intro h
    obtain ⟨b, hb⟩ := List.length_eq_one_iff.mp h
    have hnative : nativeBytes e [b] = [b] := if_neg (by simp)
    rw [asU8, hb, hnative, fromNe_singleton, UInt8.ofNat_toNat]
  u16 h := by rw [fromNe_nativeBytes (by simp [h]), asU16, asBe, if_pos h]
  u32 h := by rw [fromNe_nativeBytes (by simp [h]), asU32, asBe, if_pos h]
  u64 h := by rw [fromNe_nativeBytes (by simp [h]), asU64, asBe, if_pos h]
  u128 h := by rw [fromNe_nativeBytes (by simp [h]), asU128, asBe, if_pos h]
  other := by
    intro h
    rw [nativeBytes, if_neg]
    simp only [List.mem_cons] at h ⊢
    tauto

/-- The values `FieldIter` makes of the bytes of fields. -/
def fieldValues (fs : List FieldSpecifier) (vs : List Bytes) : List FieldValue :=
  List.zipWith (fun f v => ⟨f.informationElementId, f.enterpriseNumber, v⟩) fs vs

theorem mem_fieldValues {fs : List FieldSpecifier} {vs : List Bytes} {x : FieldValue} :
    x ∈ fieldValues fs vs ↔
      ∃ f v, (f, v) ∈ fs.zip vs ∧ x = ⟨f.informationElementId, f.enterpriseNumber, v⟩ := by
  rw [fieldValues, ← List.map_uncurry_zip_eq_zipWith]
  simp only [List.mem_map, Prod.exists, Function.uncurry_apply_pair, eq_comm]

theorem fieldValues_name {fs : List FieldSpecifier} {vs : List Bytes} (h : Sized fs vs) :
    (fieldValues fs vs).map FieldValue.name = fs.map FieldSpecifier.name := by
  induction h with
  | nil => rfl
  | cons _ _ ih =>
    rw [fieldValues, List.zipWith_cons_cons, List.map_cons, List.map_cons]
    exact congrArg _ ih

theorem mem_fieldValues_sized {fs : List FieldSpecifier} {vs : List Bytes} (h : Sized fs vs)
    {x : FieldValue} (hx : x ∈ fieldValues fs vs) :
    ∃ f ∈ fs, f.name = x.name ∧ f.fieldLength.toNat = x.data.length := by
  obtain ⟨f, v, hmem, rfl⟩ := mem_fieldValues.mp hx
  have hv : v.length = f.fieldLength.toNat := (List.forall₂_iff_zip.mp h).2 hmem
  exact ⟨f, (List.of_mem_zip hmem).1, rfl, hv.symm⟩

/-- `FieldIter` yields the values of the fields. -/
theorem Sized.yields {tg : Target} {t : TemplateRef} {vs : List Bytes} (h : Sized t.fields vs)
    (hvar : ∀ f ∈ t.fields, f.fieldLength ≠ variableLength) (hfields : t.fields.length ≤ tg.usizeMax) :
    Yields (FieldIter.next tg) (DataRecord.fields ⟨vs.flatten, t⟩)
      ((fieldValues t.fields vs).map .ok) := by
  have hraw : vs.flatten = (vs.map Encoded.fixed).flatMap Encoded.bytes := by
    rw [List.flatMap_map, List.flatten_eq_flatMap]
    rfl
  have hyields := FieldIter.yields (r := ⟨vs.flatten, t⟩) hfields (h.encodes hvar) hraw
  rwa [List.zipWith_map_right] at hyields

/-! ### The last value at a place -/

/-- The last of the values of an information element that have a byte at `j`. -/
def lastAt (values : List FieldValue) (name : UInt16 × Option UInt32) (j : Nat) : Option FieldValue :=
  values.reverse.find? fun x => x.name = name ∧ j < x.data.length

theorem lastAt_eq_some_iff {values : List FieldValue} {name : UInt16 × Option UInt32} {j : Nat}
    {x : FieldValue} : lastAt values name j = some x ↔ x.name = name ∧ j < x.data.length ∧
      ∃ later, x :: later <:+ values ∧ ∀ y ∈ later, y.name = name → y.data.length ≤ j := by
  simp only [lastAt, List.find?_eq_some_iff_append, decide_eq_true_eq, and_assoc]
  refine and_congr_right fun _ => and_congr_right fun _ => ?_
  constructor
  · rintro ⟨after, before, hvalues, hafter⟩
    refine ⟨after.reverse, ⟨before.reverse, ?_⟩, fun y hy hname => ?_⟩
    · rw [← List.reverse_reverse values, hvalues]
      simp
    · simpa [hname] using hafter y (List.mem_reverse.mp hy)
  · rintro ⟨later, ⟨before, rfl⟩, hlater⟩
    refine ⟨later.reverse, before.reverse, by simp, fun y hy => ?_⟩
    simpa [← imp_iff_not_or] using hlater y (List.mem_reverse.mp hy)

theorem mem_of_lastAt {values : List FieldValue} {name : UInt16 × Option UInt32} {j : Nat}
    {x : FieldValue} (h : lastAt values name j = some x) : x ∈ values :=
  List.mem_reverse.mp (List.mem_of_find?_eq_some h)

theorem exists_lastAt {values : List FieldValue} {x : FieldValue} (hx : x ∈ values) {j : Nat}
    (hj : j < x.data.length) : ∃ y, lastAt values x.name j = some y := by
  rw [← Option.isSome_iff_exists, lastAt, List.find?_isSome]
  exact ⟨x, List.mem_reverse.mpr hx, by simpa using hj⟩

theorem lastAt_filter (values : List FieldValue) (name : UInt16 × Option UInt32) (j : Nat) :
    lastAt (values.filter fun x => x.name = name) name j = lastAt values name j := by
  rw [lastAt, ← List.filter_reverse, List.find?_filter, lastAt]
  congr 1
  funext x
  rw [Bool.eq_iff_iff]
  simp

/-- The write of a value. -/
def FieldValue.write (e : Endian) (mappings : List Mapping) (x : FieldValue) : Option (Write UInt8) :=
  (mappings.find? fun m => m.name = x.name).map fun m => (m.dstOffset.toNat, nativeBytes e x.data)

theorem fieldWrites_eq (e : Endian) (mappings : List Mapping) (fs : List FieldSpecifier)
    (vs : List Bytes) :
    fieldWrites e mappings fs vs = (fieldValues fs vs).filterMap (FieldValue.write e mappings) := by
  rw [fieldWrites, fieldValues, ← List.map_uncurry_zip_eq_zipWith, List.filterMap_map]
  apply List.filterMap_congr
  intro x _
  rw [fieldWrite, find?_matches]
  rfl

theorem FieldValue.write_eq_some_iff {e : Endian} {mappings : List Mapping}
    (hnodup : (mappings.map Mapping.name).Nodup) {x : FieldValue} {w : Write UInt8} :
    x.write e mappings = some w ↔
      ∃ m ∈ mappings, m.name = x.name ∧ (m.dstOffset.toNat, nativeBytes e x.data) = w := by
  simp only [write, Option.map_eq_some_iff, find?_name_iff hnodup, and_assoc]

theorem DisjointRanges.eq_of_mem {mappings : List Mapping} {fs : List FieldSpecifier} {vs : List Bytes}
    (hdisj : DisjointRanges fs mappings) (hvs : Sized fs vs) {m m' : Mapping} (hm : m ∈ mappings)
    (hm' : m' ∈ mappings) {x x' : FieldValue} (hx : x ∈ fieldValues fs vs)
    (hx' : x' ∈ fieldValues fs vs) (hname : m.name = x.name) (hname' : m'.name = x'.name) {i : Nat}
    (hi : i ∈ span m.dstOffset.toNat x.data.length) (hi' : i ∈ span m'.dstOffset.toNat x'.data.length) :
    m = m' := by
  by_contra hne
  obtain ⟨f, hf, hfname, hflen⟩ := mem_fieldValues_sized hvs hx
  obtain ⟨f', hf', hfname', hflen'⟩ := mem_fieldValues_sized hvs hx'
  have hapart := hdisj.forall_ne hm hm' hne f hf f' hf' (hname.trans hfname.symm)
    (hname'.trans hfname'.symm)
  unfold Mapping.range at hapart
  rw [hflen, hflen'] at hapart
  exact hapart i hi hi'

theorem getElem?_writeAll_fieldWrites {e : Endian} {mappings : List Mapping} {fs : List FieldSpecifier}
    {vs : List Bytes} (hdisj : DisjointRanges fs mappings) (hnodup : (mappings.map Mapping.name).Nodup)
    (hvs : Sized fs vs) {dst : Bytes} (hwithin : ∀ w ∈ fieldWrites e mappings fs vs, w.Within dst.length)
    {m : Mapping} (hm : m ∈ mappings) {x : FieldValue} (hx : x ∈ fieldValues fs vs)
    (hname : m.name = x.name) {j : Nat} (hj : j < x.data.length) :
    ∃ y, lastAt (fieldValues fs vs) m.name j = some y ∧
      (writeAll dst (fieldWrites e mappings fs vs))[m.dstOffset.toNat + j]? =
        (nativeBytes e y.data)[j]? := by
  -- the values with a write that goes there are those of the mapping's own information element
  have hcover : ∀ y ∈ (fieldValues fs vs).reverse,
      ((y.write e mappings).any fun w => m.dstOffset.toNat + j ∈ w.places) =
        decide (y.name = m.name ∧ j < y.data.length) := by
    intro y hy
    rw [Bool.eq_iff_iff, Option.any_eq_true, decide_eq_true_eq]
    constructor
    · rintro ⟨w, hw, hplace⟩
      obtain ⟨m', hm', hname', rfl⟩ := (FieldValue.write_eq_some_iff hnodup).mp hw
      have hplace := of_decide_eq_true hplace
      unfold Write.places at hplace
      rw [length_nativeBytes] at hplace
      have hm' : m' = m := hdisj.eq_of_mem hvs hm' hm (List.mem_reverse.mp hy) hx hname' hname hplace
        ⟨Nat.le_add_right _ _, Nat.add_lt_add_left hj _⟩
      subst hm'
      exact ⟨hname'.symm, Nat.lt_of_add_lt_add_left hplace.2⟩
    · rintro ⟨hyname, hj⟩
      refine ⟨_, (FieldValue.write_eq_some_iff hnodup).mpr ⟨m, hm, hyname.symm, rfl⟩, decide_eq_true ?_⟩
      unfold Write.places
      rw [length_nativeBytes]
      exact ⟨Nat.le_add_right _ _, Nat.add_lt_add_left hj _⟩
  obtain ⟨y, hy⟩ := exists_lastAt hx hj
  rw [← hname] at hy
  obtain ⟨hyname, -⟩ := lastAt_eq_some_iff.mp hy
  have hwrite := (FieldValue.write_eq_some_iff (e := e) hnodup).mpr ⟨m, hm, hyname.symm, rfl⟩
  refine ⟨y, hy, ?_⟩
  rw [getElem?_writeAll hwithin, fieldWrites_eq, ← List.filterMap_reverse, List.find?_filterMap,
    List.find?_congr hcover, show List.find? _ _ = some y from hy, Option.bind_some, hwrite]
  show (nativeBytes e y.data)[m.dstOffset.toNat + j - m.dstOffset.toNat]? = _
  rw [Nat.add_sub_cancel_left]

/-! ### What a decoded buffer holds -/

/-- At every place of a mapped value, a decoded buffer holds what the last value of the information element
has there. -/
theorem decodeInto_values (tg : Target) {t : TemplateRef} {mappings : List Mapping}
    {plan : DecodePlan} (hbuild : DecodePlan.build t mappings = .ok plan)
    (hdisj : DisjointRanges t.fields mappings) {buf : Bytes} (hbuf : buf.length ≤ tg.isizeMax)
    {it : DataRecordIter} (hnew : DataRecordIter.new tg buf t = .ok it) {k : Nat} {r : DataRecord}
    (hr : call (DataRecordIter.next tg) k it = .ok (some (.ok r))) {dst : Bytes}
    (hdst : plan.dstBufLen.toNat ≤ dst.length) :
    ∃ (dst' : Bytes) (vs : List Bytes), Sized t.fields vs ∧ r = ⟨vs.flatten, t⟩ ∧
      r.decodeInto tg plan dst = .ok (.ok (), dst') ∧ dst'.length = dst.length ∧
      ∀ m ∈ mappings, ∀ x ∈ fieldValues t.fields vs, m.name = x.name →
        m.dstOffset.toNat + x.data.length ≤ dst'.length ∧
        ∀ j < x.data.length, ∃ y, lastAt (fieldValues t.fields vs) m.name j = some y ∧
          dst'[m.dstOffset.toNat + j]? = (nativeBytes tg.endian y.data)[j]? := by
  obtain ⟨st, rfl, hst, -, hvar, hnodup, -⟩ := DecodePlan.inv_of_build hbuild
  obtain ⟨vs, hvs, rfl⟩ := DataRecordIter.record_sized hvar hbuf hnew hr
  have hwithin : ∀ w ∈ fieldWrites tg.endian mappings t.fields vs, w.Within dst.length :=
    fun w hw => fieldWrites_within hst hvs hdst hw
  have happly := hst.apply_eq tg hvs [] hdst
  rw [List.append_nil] at happly
  refine ⟨_, vs, hvs, rfl, happly, length_writeAll hwithin, fun m hm x hx hname => ⟨?_, fun j hj => ?_⟩⟩
  · have hw : (m.dstOffset.toNat, nativeBytes tg.endian x.data) ∈
        fieldWrites tg.endian mappings t.fields vs := by
      rw [fieldWrites_eq]
      exact List.mem_filterMap.mpr ⟨x, hx, (FieldValue.write_eq_some_iff hnodup).mpr ⟨m, hm, hname, rfl⟩⟩
    have hin := hwithin _ hw
    rwa [Write.Within, length_nativeBytes, ← length_writeAll hwithin] at hin
  · exact getElem?_writeAll_fieldWrites hdisj hnodup hvs hwithin hm hx hname hj

/-- Decoding a record into a buffer and iterating over its fields give the same values. -/
theorem decodeInto_agrees (tg : Target) {t : TemplateRef} {mappings : List Mapping}
    {plan : DecodePlan} (hnames : (t.fields.map FieldSpecifier.name).Nodup)
    (hfields : t.fields.length ≤ tg.usizeMax) (hbuild : DecodePlan.build t mappings = .ok plan)
    (hdisj : DisjointRanges t.fields mappings) {buf : Bytes} (hbuf : buf.length ≤ tg.isizeMax)
    {it : DataRecordIter} (hnew : DataRecordIter.new tg buf t = .ok it) {k : Nat} {r : DataRecord}
    (hr : call (DataRecordIter.next tg) k it = .ok (some (.ok r))) {dst : Bytes}
    (hdst : plan.dstBufLen.toNat ≤ dst.length) :
    ∃ (dst' : Bytes) (values : List FieldValue),
      r.decodeInto tg plan dst = .ok (.ok (), dst') ∧ dst'.length = dst.length ∧
      Yields (FieldIter.next tg) r.fields (values.map .ok) ∧
      ∀ m ∈ mappings, ∃ f ∈ values, (∀ f' ∈ values, f'.name = m.name ↔ f' = f) ∧
        m.dstOffset.toNat + f.data.length ≤ dst'.length ∧
        Delivered tg.endian f ((dst'.drop m.dstOffset.toNat).take f.data.length) := by
  obtain ⟨dst', vs, hvs, rfl, hdecode, hlength, hheld⟩ :=
    decodeInto_values tg hbuild hdisj hbuf hnew hr hdst
  obtain ⟨_, -, -, -, hvar, -, hused⟩ := DecodePlan.inv_of_build hbuild
  refine ⟨dst', _, hdecode, hlength, hvs.yields hvar hfields, ?_⟩
  rw [← fieldValues_name hvs] at hnames
  intro m hm
  obtain ⟨f, hf, hname⟩ := hused m hm
  obtain ⟨v, hmem⟩ := hvs.exists_mem hf
  have hvalue := mem_fieldValues.mpr ⟨f, v, hmem, rfl⟩
  have hunique : ∀ x ∈ fieldValues t.fields vs, x.name = m.name → x = ⟨_, _, v⟩ :=
    fun x hx hx' => List.inj_on_of_nodup_map hnames hx hvalue (hx'.trans hname)
  obtain ⟨hin, hgot⟩ := hheld m hm _ hvalue hname
  refine ⟨_, hvalue, fun x hx => ⟨hunique x hx, ?_⟩, hin, ?_⟩
  · rintro rfl
    exact hname.symm
  · have hnative : (dst'.drop m.dstOffset.toNat).take (nativeBytes tg.endian v).length =
        nativeBytes tg.endian v := by
      rw [take_drop_eq_iff, length_nativeBytes]
      intro j hj
      obtain ⟨y, hlast, hbyte⟩ := hgot j hj
      rw [hbyte, hunique y (mem_of_lastAt hlast) (lastAt_eq_some_iff.mp hlast).1]
    rw [length_nativeBytes] at hnative
    rw [hnative]
    exact FieldValue.delivered tg.endian ⟨f.informationElementId, f.enterpriseNumber, v⟩

theorem decodeInto_agrees_port :
    ∃ (dst' : Bytes) (values : List FieldValue),
      DataRecord.decodeInto .le64
          ⟨[10, 0, 0, 2, 17, 0, 53], ⟨256, 0, [⟨8, none, 4⟩, ⟨4, none, 1⟩, ⟨7, none, 2⟩]⟩⟩
          ⟨7, 8, [.swap .u32 1 0 4, .swap .u16 1 5 0]⟩ (List.replicate 8 0) = .ok (.ok (), dst') ∧
      dst'.length = 8 ∧
      Yields (FieldIter.next .le64) (DataRecord.fields
          ⟨[10, 0, 0, 2, 17, 0, 53], ⟨256, 0, [⟨8, none, 4⟩, ⟨4, none, 1⟩, ⟨7, none, 2⟩]⟩⟩)
        (values.map .ok) ∧
      ∀ m ∈ [Mapping.new 7 0, Mapping.new 8 4],
        ∃ f ∈ values, (∀ f' ∈ values, f'.name = m.name ↔ f' = f) ∧
          m.dstOffset.toNat + f.data.length ≤ dst'.length ∧
          Delivered .little f ((dst'.drop m.dstOffset.toNat).take f.data.length) := by
  have hbuild : DecodePlan.build ⟨256, 0, [⟨8, none, 4⟩, ⟨4, none, 1⟩, ⟨7, none, 2⟩]⟩
      [.new 7 0, .new 8 4] = .ok ⟨7, 8, [.swap .u32 1 0 4, .swap .u16 1 5 0]⟩ := rfl
  have hdisj : DisjointRanges [⟨8, none, 4⟩, ⟨4, none, 1⟩, ⟨7, none, 2⟩] [.new 7 0, .new 8 4] :=
    .pair (by decide)
  have hnew : DataRecordIter.new .le64 [10, 0, 0, 1, 6, 0, 80, 10, 0, 0, 2, 17, 0, 53]
      ⟨256, 0, [⟨8, none, 4⟩, ⟨4, none, 1⟩, ⟨7, none, 2⟩]⟩ = .ok ⟨_, _, 7, .allFixed⟩ := rfl
  have hr : call (DataRecordIter.next .le64) 1 ⟨[10, 0, 0, 1, 6, 0, 80, 10, 0, 0, 2, 17, 0, 53],
      ⟨256, 0, [⟨8, none, 4⟩, ⟨4, none, 1⟩, ⟨7, none, 2⟩]⟩, 7, .allFixed⟩ =
        .ok (some (.ok ⟨[10, 0, 0, 2, 17, 0, 53], _⟩)) := rfl
  exact decodeInto_agrees .le64 (by decide) (by decide) hbuild hdisj (by decide) hnew hr (by decide)

end IpfixParser

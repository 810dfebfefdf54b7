import IpfixParser.Proof.PlanBuild

/-!
# The operation list while a plan is built

Every mapped field is a piece of a record to move, and every operation of the list stands for a run
of pieces, each of which goes on where the one before it ends. `PlanState.Coalesced` says so of the
operations of a template's first fields, and that no operation could have taken in the next one. It
rests on `PlanState.Inv`: the ends that the adjacency tests compute are `u32`s because they are
bounded by what the loop remembers, and the operation that is pushed last is the only one whose
source end the loop has not yet checked.
-/

namespace IpfixParser

open Lib

/-! ### The mapped fields -/

/-- A mapped field: `len` bytes to move, as an integer of a width or as they are. -/
structure Piece where
  kind : Option SwapWidth
  src : Nat
  dst : Nat
  len : Nat
  sized : ∀ w ∈ kind, w.bytes.toNat = len

/-- The piece that a field at `src` is when its destination is `dst`. -/
def fieldPiece (f : FieldSpecifier) (src dst : Nat) : Piece where
  kind := SwapWidth.fromFieldLength f.fieldLength
  src := src
  dst := dst
  len := f.fieldLength.toNat
  sized _ hw := SwapWidth.bytes_of_fromFieldLength hw

/-- The piece of the field at `off`, where a mapping names it. -/
def mappedPiece (mappings : List Mapping) (off : Nat) (f : FieldSpecifier) : Option Piece :=
  (mappings.find? fun m => m.matches f).map fun m => fieldPiece f off m.dstOffset.toNat

/-- The pieces of the mapped fields, in the order of the template. -/
def mappedPieces (mappings : List Mapping) : Nat → List FieldSpecifier → List Piece
  | _, [] => []
  | off, f :: fs =>
    (mappedPiece mappings off f).toList ++ mappedPieces mappings (off + f.fieldLength.toNat) fs

theorem mappedPieces_concat (mappings : List Mapping) (off : Nat) (fs : List FieldSpecifier)
    (f : FieldSpecifier) :
    mappedPieces mappings off (fs ++ [f]) = mappedPieces mappings off fs ++
      (mappedPiece mappings (off + (fs.map fun f => f.fieldLength.toNat).sum) f).toList := by
  induction fs generalizing off with
  | nil => simp [mappedPieces]
  | cons g fs ih =>
    rw [List.cons_append, mappedPieces, mappedPieces, ih, List.map_cons, List.sum_cons, Nat.add_assoc,
      List.append_assoc]

/-- `q` goes on where `p` ends, in its way. -/
def Piece.Abuts (p q : Piece) : Prop :=
  p.kind = q.kind ∧ p.src + p.len = q.src ∧ p.dst + p.len = q.dst

instance : DecidableRel Piece.Abuts := fun _ _ => inferInstanceAs (Decidable (_ ∧ _ ∧ _))

/-- `Piece.Abuts`, as `List.splitBy` takes it. -/
def Piece.abuts (p q : Piece) : Bool := decide (p.Abuts q)

/-- The number of pieces that one operation can move. Only swaps count them. -/
def Piece.limit (p : Piece) : Option Nat := p.kind.map fun _ => 0xFFFF

/-- The number of maximal runs of the pieces, where a run of more integers than a swap can count is
as many as the swaps it takes. -/
def maximalRuns (pieces : List Piece) : Nat := runCount Piece.abuts Piece.limit pieces

/-! ### What an operation stands for -/

/-- `op` moves the run `g`. -/
structure Op.Covers (op : Op) (g : List Piece) : Prop where
  nonempty : g ≠ []
  run : g.IsChain Piece.Abuts
  kind : ∀ p ∈ g, p.kind = op.kind
  first : ∀ p ∈ g.head?, p.src = op.src ∧ p.dst = op.dst
  last : ∀ p ∈ g.getLast?, p.src + p.len = op.srcEnd ∧ p.dst + p.len = op.dstEnd
  count : ∀ n ∈ op.count, g.length = n

theorem Op.count_le {op : Op} {n : Nat} (h : n ∈ op.count) : n ≤ 0xFFFF := by
  cases op with
  | swap w count src dst =>
    obtain rfl : count.toNat = n := Option.some.inj h
    exact Nat.le_of_lt_succ count.toNat_lt
  | copy => cases h

theorem Op.kind_map (op : Op) (n : Nat) : (op.kind.map fun _ => n) = op.count.map fun _ => n := by
  cases op <;> rfl

namespace Op.Covers

variable {op : Op} {g : List Piece}

theorem limit (h : op.Covers g) : g.head?.bind Piece.limit = op.count.map fun _ => 0xFFFF := by
  obtain ⟨p, g, rfl⟩ := List.exists_cons_of_ne_nil h.nonempty
  rw [List.head?_cons, Option.bind_some, Piece.limit, h.kind p List.mem_cons_self, kind_map]

theorem count_pos (h : op.Covers g) {n : Nat} (hn : n ∈ op.count) : 1 ≤ n := by
  rw [← h.count n hn]
  exact List.length_pos_iff.mpr h.nonempty

theorem isPart (h : op.Covers g) : IsPart Piece.abuts Piece.limit g where
  nonempty := h.nonempty
  run := by simpa [Piece.abuts] using h.run
  bounded := by
    intro n hn
    rw [h.limit] at hn
    obtain ⟨count, hcount, rfl⟩ := Option.map_eq_some_iff.mp hn
    rw [h.count count hcount]
    exact count_le hcount

theorem full {op' : Op} {g' : List Piece} (h : op.Covers g) (h' : op'.Covers g')
    (hfull : op.Mergeable op' → op.Full) : ∀ p ∈ g.getLast?, ∀ q ∈ g'.head?, Piece.abuts p q →
      g.head?.bind Piece.limit = some g.length := by
  intro p hp q hq habut
  obtain ⟨hkind, hsrc, hdst⟩ : p.Abuts q := of_decide_eq_true habut
  obtain ⟨hsrcEnd, hdstEnd⟩ := h.last p hp
  obtain ⟨hsrc', hdst'⟩ := h'.first q hq
  have hcount : op.count = some 0xFFFF := hfull
    { kind := by
        rw [← h.kind p (List.mem_of_mem_getLast? hp), hkind, h'.kind q (List.mem_of_mem_head? hq)]
      src := by rw [← hsrcEnd, hsrc, hsrc']
      dst := by rw [← hdstEnd, hdst, hdst'] }
  rw [h.limit, hcount, h.count _ hcount]
  rfl

end Op.Covers

theorem length_eq_maximalRuns {ops : List Op} {pieces : List Piece} (h : Expands Op.Covers ops pieces)
    (hfull : ops.IsChain fun a b => a.Mergeable b → a.Full) : ops.length = maximalRuns pieces := by
  refine h.length_eq (fun p q habut => ?_) (fun op g hop => hop.isPart) (hfull.imp ?_)
  · obtain ⟨hkind, _⟩ : p.Abuts q := of_decide_eq_true habut
    rw [Piece.limit, hkind, Piece.limit]
  · exact fun op op' hfull g g' hop hop' => hop.full hop' hfull

/-! ### Pushing -/

theorem fieldOp_covers (f : FieldSpecifier) (src dst : UInt32) :
    (fieldOp f src dst).Covers [fieldPiece f src.toNat dst.toNat] := by
  obtain ⟨hsrcEnd, hdstEnd⟩ := fieldOp_ends f src dst
  have hop : (fieldOp f src dst).kind = SwapWidth.fromFieldLength f.fieldLength ∧
      (fieldOp f src dst).src = src.toNat ∧ (fieldOp f src dst).dst = dst.toNat ∧
      ∀ n ∈ (fieldOp f src dst).count, 1 = n := by
    rw [fieldOp]
    cases SwapWidth.fromFieldLength f.fieldLength with
    | none => simp [Op.kind, Op.src, Op.dst, Op.count]
    | some w => simp [Op.kind, Op.src, Op.dst, Op.count]
  obtain ⟨hkind, hsrc, hdst, hcount⟩ := hop
  constructor
  case nonempty => simp
  case run => exact List.isChain_singleton _
  case kind => simp [fieldPiece, hkind]
  case first => simp [fieldPiece, hsrc, hdst]
  case last => simp [fieldPiece, hsrcEnd, hdstEnd]
  case count => exact hcount

theorem Op.Merges.same {a b c : Op} (h : a.Merges b c) :
    c.kind = a.kind ∧ c.src = a.src ∧ c.dst = a.dst := by
  cases h <;> exact ⟨rfl, rfl, rfl⟩

theorem Op.Merges.mergeable {a b c : Op} (h : a.Merges b c) : a.Mergeable b := by
  cases h with
  | swap _ hsrc hdst => exact ⟨rfl, hsrc.symm, hdst.symm⟩
  | copy _ hsrc hdst => exact ⟨rfl, hsrc.symm, hdst.symm⟩

theorem Op.Merges.count {a b c : Op} (h : a.Merges b c) {n : Nat} (hn : n ∈ c.count) :
    ∃ k ∈ a.count, n = k + 1 := by
  cases h with
  | swap hcount _ _ => exact ⟨_, rfl, (Option.some.inj hn).symm.trans hcount⟩
  | copy => cases hn

theorem Op.Merges.covers {a b c : Op} (h : a.Merges b c) {g : List Piece} {p : Piece}
    (ha : a.Covers g) (hb : b.Covers [p]) : c.Covers (g ++ [p]) := by
  obtain ⟨hkind, hsrc, hdst⟩ := h.same
  obtain ⟨hkindab, hsrcab, hdstab⟩ := h.mergeable
  have hp := hb.kind p (List.mem_singleton_self p)
  obtain ⟨hpsrc, hpdst⟩ := hb.first p rfl
  have hends := hb.last p rfl
  constructor
  case nonempty => simp
  case run =>
    refine ha.run.append (List.isChain_singleton p) fun q hq p' hp' => ?_
    obtain rfl : p = p' := Option.some.inj hp'
    obtain ⟨hqsrc, hqdst⟩ := ha.last q hq
    refine ⟨?_, ?_, ?_⟩
    · rw [ha.kind q (List.mem_of_mem_getLast? hq), hkindab, hp]
    · rw [hqsrc, hsrcab, hpsrc]
    · rw [hqdst, hdstab, hpdst]
  case kind =>
    intro q hq
    rcases List.mem_append.mp hq with hq | hq
    · rw [ha.kind q hq, hkind]
    · rw [List.mem_singleton.mp hq, hp, ← hkindab, hkind]
  case first =>
    rw [List.head?_append_of_ne_nil g ha.nonempty, hsrc, hdst]
    exact ha.first
  case last =>
    rw [List.getLast?_concat, h.joins.srcEnd, h.joins.dstEnd]
    rintro _ ⟨⟩
    exact hends
  case count =>
    intro n hn
    obtain ⟨k, hk, rfl⟩ := h.count hn
    rw [List.length_append, ha.count k hk, List.length_singleton]

theorem Pushed.expands {ops ops' : List Op} {op : Op} {pieces : List Piece} {p : Piece}
    (h : Pushed ops op ops') (hops : Expands Op.Covers ops pieces) (hop : op.Covers [p]) :
    Expands Op.Covers ops' (pieces ++ [p]) := by
  cases h with
  | merged hpre hmerges =>
    rw [hpre] at hops
    exact hops.grow fun g ha => hmerges.covers ha hop
  | apart => exact hops.concat hop

theorem Pushed.isChain {ops ops' : List Op} {op : Op} (h : Pushed ops op ops')
    (hops : ops.IsChain fun a b => a.Mergeable b → a.Full) :
    ops'.IsChain fun a b => a.Mergeable b → a.Full := by
  cases h with
  | merged hpre hmerges =>
    rw [hpre] at hops
    obtain ⟨hkind, hsrc, hdst⟩ := hmerges.same
    refine hops.left_of_append.append (List.isChain_singleton _) fun b hb c hc hmerge => ?_
    obtain rfl := Option.some.inj hc
    refine (List.isChain_append.mp hops).2.2 b hb _ rfl ⟨?_, ?_, ?_⟩
    · rw [hmerge.kind, hkind]
    · rw [hmerge.src, hsrc]
    · rw [hmerge.dst, hdst]
  | apart hlast =>
    refine hops.append (List.isChain_singleton _) fun a ha b hb => ?_
    obtain rfl := Option.some.inj hb
    exact hlast a ha

/-! ### The loop -/

/-- What the loop of `DecodePlan::build` keeps when it holds the operations of the fields `fs`. -/
structure PlanState.Coalesced (mappings : List Mapping) (fs : List FieldSpecifier) (st : PlanState) :
    Prop where
  count : ∀ op ∈ st.ops, ∀ n ∈ op.count, 1 ≤ n ∧ n ≤ 0xFFFF
  expands : Expands Op.Covers st.ops (mappedPieces mappings 0 fs)
  dstEnd : ∀ op ∈ st.ops, op.dstEnd ≤ st.dstMax.toNat
  maximal : st.ops.IsChain fun a b => a.Mergeable b → a.Full

theorem PlanState.start_coalesced (mappings : List Mapping) : Coalesced mappings [] ⟨[], 0, 0⟩ where
  count := by simp
  expands := .nil
  dstEnd := by simp
  maximal := .nil

theorem count_bounds {ops : List Op} {pieces : List Piece} (h : Expands Op.Covers ops pieces) :
    ∀ op ∈ ops, ∀ n ∈ op.count, 1 ≤ n ∧ n ≤ 0xFFFF := by
  obtain ⟨groups, hgroups, rfl⟩ := h
  induction hgroups with
  | nil => simp
  | cons hop _ ih =>
    exact List.forall_mem_cons.mpr ⟨fun n hn => ⟨hop.count_pos hn, Op.count_le hn⟩, ih⟩

theorem planMapped_coalesced {mappings : List Mapping} {fs : List FieldSpecifier} {st st' : PlanState}
    {f : FieldSpecifier} {m : Mapping} (hinv : st.Inv mappings fs) (hst : st.Coalesced mappings fs)
    (hm : (mappings.find? fun m => m.matches f) = some m) (h : planMapped st f m = .ok st') :
    st'.Coalesced mappings (fs ++ [f]) := by
  rcases planMapped_pushed hinv.within f m with ⟨herr, _⟩ | ⟨ops', dstMax', hok, hpushed, hmax⟩
  · cases herr.symm.trans h
  obtain rfl : _ = st' := Outcome.ok.inj (hok.symm.trans h)
  have hpieces : mappedPieces mappings 0 (fs ++ [f]) =
      mappedPieces mappings 0 fs ++ [fieldPiece f st.srcOff.toNat m.dstOffset.toNat] := by
    rw [mappedPieces_concat, mappedPiece, hm, Nat.zero_add, ← hinv.srcOff]
    rfl
  have hexpands := hpushed.expands hst.expands (fieldOp_covers f st.srcOff m.dstOffset)
  have hwithin : ∀ op ∈ ops', op.Within (st.srcOff.toNat + f.fieldLength.toNat) dstMax'.toNat := by
    obtain ⟨hsrc, hdst⟩ := fieldOp_ends f st.srcOff m.dstOffset
    refine hpushed.adds.within (fun op hop => ?_) ⟨hsrc.le, hdst ▸ hmax ▸ Nat.le_max_right _ _⟩
    obtain ⟨hsrc, hdst⟩ := hinv.within op hop
    exact ⟨Nat.le_add_right_of_le hsrc, hmax ▸ Nat.le_trans hdst (Nat.le_max_left _ _)⟩
  exact
    { count := count_bounds hexpands
      expands := hpieces ▸ hexpands
      dstEnd := fun op hop => (hwithin op hop).2
      maximal := hpushed.isChain hst.maximal }

theorem planField_coalesced {mappings : List Mapping} {fs : List FieldSpecifier} {st st' : PlanState}
    {f : FieldSpecifier} (hinv : st.Inv mappings fs) (hst : st.Coalesced mappings fs)
    (h : planField mappings st f = .ok st') : st'.Coalesced mappings (fs ++ [f]) := by
  have hadvance : ∀ st₁ : PlanState, st₁.Coalesced mappings (fs ++ [f]) →
      (do
        let srcOff ← Outcome.okOr Error.invalidLength (u32CheckedAdd st₁.srcOff f.fieldLength.toUInt32)
        return { st₁ with srcOff }) = Outcome.ok st' → st'.Coalesced mappings (fs ++ [f]) := by
    intro st₁ hst₁ hrest
    obtain ⟨srcOff, _, hst'⟩ := Outcome.bind_eq_ok.mp hrest
    obtain rfl : _ = st' := Outcome.ok.inj hst'
    exact ⟨hst₁.count, hst₁.expands, hst₁.dstEnd, hst₁.maximal⟩
  rw [planField] at h
  cases hfind : mappings.find? fun m => m.matches f with
  | none =>
    rw [hfind] at h
    refine hadvance st ?_ h
    have hpieces : mappedPieces mappings 0 (fs ++ [f]) = mappedPieces mappings 0 fs := by
      simp [mappedPieces_concat, mappedPiece, hfind]
    exact ⟨hst.count, hpieces ▸ hst.expands, hst.dstEnd, hst.maximal⟩
  | some m =>
    rw [hfind] at h
    obtain ⟨st₁, hst₁, hrest⟩ := Outcome.bind_eq_ok.mp h
    exact hadvance st₁ (planMapped_coalesced hinv hst hfind hst₁) hrest

/-- The loop, up to any field. -/
theorem planFields_coalesced {mappings : List Mapping} (fs' : List FieldSpecifier)
    {fs : List FieldSpecifier} {st st' : PlanState} (hinv : st.Inv mappings fs)
    (hst : st.Coalesced mappings fs) (h : fs'.foldlM (planField mappings) st = .ok st') :
    st'.Inv mappings (fs ++ fs') ∧ st'.Coalesced mappings (fs ++ fs') := by
  induction fs' generalizing fs st with
  | nil =>
    obtain rfl : st = st' := Outcome.ok.inj h
    rw [List.append_nil]
    exact ⟨hinv, hst⟩
  | cons f fs' ih =>
    rw [List.foldlM_cons] at h
    obtain ⟨st₁, hstep, hrest⟩ := Outcome.bind_eq_ok.mp h
    rcases planField_inv hinv f with ⟨herr, _⟩ | ⟨st₂, hok, hinv', _⟩
    · cases herr.symm.trans hstep
    obtain rfl : st₂ = st₁ := Outcome.ok.inj (hok.symm.trans hstep)
    rw [List.append_cons]
    exact ih hinv' (planField_coalesced hinv hst hstep) hrest

theorem PlanState.coalesced_of_run {mappings : List Mapping} {fs : List FieldSpecifier}
    {st : PlanState} (h : fs.foldlM (planField mappings) ⟨[], 0, 0⟩ = .ok st) :
    st.Inv mappings fs ∧ st.Coalesced mappings fs :=
  planFields_coalesced fs (start_inv mappings) (start_coalesced mappings) h

/-! ### The adjacency tests -/

/-- The sums of the adjacency tests are the ends of the operation: no product overflows, and nothing
saturates. -/
def Op.TestsExact : Op → Prop
  | swap w count src dst => ∃ run, (u32Mul count.toUInt32 w.bytes : Outcome Error UInt32) = .ok run ∧
      run.toNat = w.bytes.toNat * count.toNat ∧
      (u32SaturatingAdd src run).toNat = src.toNat + run.toNat ∧
      (u32SaturatingAdd dst run).toNat = dst.toNat + run.toNat
  | copy src dst len => (u32SaturatingAdd src len).toNat = src.toNat + len.toNat ∧
      (u32SaturatingAdd dst len).toNat = dst.toNat + len.toNat

theorem Op.testsExact {op : Op} {s d : UInt32} (h : op.Within s.toNat d.toNat) : op.TestsExact := by
  obtain ⟨hsrc, hdst⟩ := h
  have hs := s.toNat_lt
  have hd := d.toNat_lt
  cases op with
  | swap w count src dst =>
    obtain ⟨hrun, hrun'⟩ := toNat_swapRun w count
    rw [srcEnd, ← hrun'] at hsrc
    rw [dstEnd, ← hrun'] at hdst
    exact ⟨_, u32Mul_eq hrun, hrun', toNat_u32SaturatingAdd (by omega),
      toNat_u32SaturatingAdd (by omega)⟩
  | copy src dst len =>
    rw [srcEnd] at hsrc
    rw [dstEnd] at hdst
    exact ⟨toNat_u32SaturatingAdd (by omega), toNat_u32SaturatingAdd (by omega)⟩

/-- `pl.checked_add(len)` of `push_copy` does not fail. It is reached when the last operation is a copy
that ends at `src` and `dst`. -/
def CopyGrows (ops : List Op) (src dst len : UInt32) : Prop :=
  ∀ ps pd pl, ops.getLast? = some (.copy ps pd pl) → u32SaturatingAdd ps pl = src →
    u32SaturatingAdd pd pl = dst → u32CheckedAdd pl len ≠ none

theorem copyGrows {ops : List Op} {s d : UInt32} (h : ∀ op ∈ ops, op.Within s.toNat d.toNat)
    (src : UInt32) {dst len : UInt32} (hdst : u32CheckedAdd dst len ≠ none) :
    CopyGrows ops src dst len := by
  intro ps pd pl hlast _ hpd hover
  obtain ⟨_, hexact⟩ := Op.testsExact (h _ (List.mem_of_mem_getLast? hlast))
  obtain ⟨dstEnd, hdstEnd⟩ := Option.ne_none_iff_exists'.mp hdst
  have hsum := u32CheckedAdd_eq_some hdstEnd
  have hlt := dstEnd.toNat_lt
  have hlarge := u32CheckedAdd_eq_none hover
  rw [hpd] at hexact
  omega

/-! ### Results -/

theorem PlanState.Coalesced.length_ops {mappings : List Mapping} {fs : List FieldSpecifier}
    {st : PlanState} (h : st.Coalesced mappings fs) :
    st.ops.length = maximalRuns (mappedPieces mappings 0 fs) :=
  length_eq_maximalRuns h.expands h.maximal

theorem DecodePlan.run_of_build {t : TemplateRef} {mappings : List Mapping} {plan : DecodePlan}
    (h : build t mappings = .ok plan) :
    ∃ st, t.fields.foldlM (planField mappings) ⟨[], 0, 0⟩ = .ok st ∧ plan.ops = st.ops := by
  rw [build] at h
  split_ifs at h with _ hunused
  · obtain ⟨_, _, h⟩ := Outcome.bind_eq_ok.mp h
    obtain ⟨_, _, h⟩ := Outcome.bind_eq_ok.mp h
    cases h
  · obtain ⟨_, _, h⟩ := Outcome.bind_eq_ok.mp h
    obtain ⟨st, hst, h⟩ := Outcome.bind_eq_ok.mp h
    obtain rfl : _ = plan := Outcome.ok.inj h
    exact ⟨st, hst, rfl⟩

/-- The operation list of `DecodePlan::build`. Between two fields of the template, with the fields
`fs` behind, and after the push for any mapped field, it stands for the mapped fields so far and is as
short as it can be. Between two fields the operations read below `src_off`, the adjacency tests are
exact, and a copy that they let grow does. -/
theorem DecodePlan.op_list_invariant (t : TemplateRef) (mappings : List Mapping) :
    (∀ (fs : List FieldSpecifier) (st : PlanState), fs <+: t.fields →
      fs.foldlM (planField mappings) ⟨[], 0, 0⟩ = .ok st →
        st.Coalesced mappings fs ∧
        (∀ op ∈ st.ops, op.srcEnd ≤ st.srcOff.toNat ∧ op.TestsExact) ∧
        ∀ f m, (mappings.find? fun m => m.matches f) = some m →
          (u32CheckedAdd m.dstOffset f.fieldLength.toUInt32 ≠ none →
            CopyGrows st.ops st.srcOff m.dstOffset f.fieldLength.toUInt32) ∧
          ∀ st', planMapped st f m = .ok st' → st'.Coalesced mappings (fs ++ [f])) ∧
    ∀ plan, build t mappings = .ok plan →
      plan.opCount = maximalRuns (mappedPieces mappings 0 t.fields) := by
  constructor
  · intro fs st _ hst
    obtain ⟨hinv, hcoalesced⟩ := PlanState.coalesced_of_run hst
    refine ⟨hcoalesced, fun op hop => ?_, fun f m hm => ⟨?_, fun st' hst' => ?_⟩⟩
    · exact ⟨(hinv.within op hop).1, Op.testsExact (hinv.within op hop)⟩
    · exact copyGrows hinv.within _
    · exact planMapped_coalesced hinv hcoalesced hm hst'
  · intro plan hplan
    obtain ⟨st, hst, hops⟩ := run_of_build hplan
    rw [opCount, hops]
    exact (PlanState.coalesced_of_run hst).2.length_ops

theorem DecodePlan.op_list_invariant_port :
    PlanState.Coalesced [.new 7 0, .new 4 2, .new 6 3] [⟨7, none, 2⟩, ⟨4, none, 1⟩]
        ⟨[.swap .u16 1 0 0, .copy 2 2 1], 3, 3⟩ ∧
      CopyGrows [.swap .u16 1 0 0, .copy 2 2 1] 3 3 1 ∧
      PlanState.Coalesced [.new 7 0, .new 4 2, .new 6 3] [⟨7, none, 2⟩, ⟨4, none, 1⟩, ⟨6, none, 1⟩]
        ⟨[.swap .u16 1 0 0, .copy 2 2 2], 3, 4⟩ ∧
      2 = maximalRuns (mappedPieces [.new 7 0, .new 4 2, .new 6 3] 0
        [⟨7, none, 2⟩, ⟨4, none, 1⟩, ⟨6, none, 1⟩]) := by
  obtain ⟨hloop, hplan⟩ := op_list_invariant ⟨256, 0, [⟨7, none, 2⟩, ⟨4, none, 1⟩, ⟨6, none, 1⟩]⟩
    [.new 7 0, .new 4 2, .new 6 3]
  obtain ⟨hst, -, hnext⟩ := hloop [⟨7, none, 2⟩, ⟨4, none, 1⟩]
    ⟨[.swap .u16 1 0 0, .copy 2 2 1], 3, 3⟩ ⟨_, rfl⟩ rfl
  obtain ⟨hgrows, hpush⟩ := hnext ⟨6, none, 1⟩ (.new 6 3) rfl
  exact ⟨hst, hgrows (by decide), hpush _ rfl, hplan ⟨4, 4, [.swap .u16 1 0 0, .copy 2 2 2]⟩ rfl⟩

end IpfixParser

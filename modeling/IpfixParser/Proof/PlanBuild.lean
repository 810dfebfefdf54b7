import Mathlib.Data.List.Induction
import IpfixParser.Lib.Runs
import IpfixParser.Model.Plan

/-!
# What a plan's operations do

An operation writes one run of bytes, and joining it to the one before it changes nothing but the
number of operations. `PlanState.Inv` says so of the operations of a template's first fields: run
one after the other they write each mapped field where its mapping puts it, and read and write
inside the bounds that the plan remembers.
-/

namespace IpfixParser

open Lib

/-! ### Operations as writes -/

/-- The integers of `n` fields of `w` bytes, in the byte order of the machine. -/
def swapBytes (e : Endian) (w : Nat) : Nat → Bytes → Bytes
  | 0, _ => []
  | n + 1, src => toNe e w (fromBe (src.take w)) ++ swapBytes e w n (src.drop w)

@[simp] theorem length_swapBytes (e : Endian) (w n : Nat) (src : Bytes) :
    (swapBytes e w n src).length = w * n := by
  induction n generalizing src with
  | zero => rfl
  | succ n ih =>
    rw [swapBytes, List.length_append, length_toNe, ih, Nat.mul_succ, Nat.add_comm]

theorem swapBytes_append (e : Endian) {w m : Nat} (n : Nat) {a : Bytes} (b : Bytes)
    (h : a.length = w * m) :
    swapBytes e w (m + n) (a ++ b) = swapBytes e w m a ++ swapBytes e w n b := by
  induction m generalizing a with
  | zero =>
    obtain rfl := List.eq_nil_of_length_eq_zero h
    rw [Nat.zero_add]
    rfl
  | succ m ih =>
    rw [Nat.mul_succ] at h
    have hw : w ≤ a.length := by omega
    have hrest : (a.drop w).length = w * m := by
      rw [List.length_drop]
      omega
    rw [Nat.succ_add, swapBytes, swapBytes, List.take_append_of_le_length hw,
      List.drop_append_of_le_length hw, ih hrest, List.append_assoc]

namespace Op

/-- The width of the integers that an operation swaps. A copy swaps none. -/
def kind : Op → Option SwapWidth
  | swap w _ _ _ => some w
  | copy _ _ _ => none

/-- The number of integers that an operation swaps. -/
def count : Op → Option Nat
  | swap _ count _ _ => some count.toNat
  | copy _ _ _ => none

/-- The start of what an operation reads. -/
def src : Op → Nat
  | swap _ _ src _ => src.toNat
  | copy src _ _ => src.toNat

/-- The start of what an operation writes. -/
def dst : Op → Nat
  | swap _ _ _ dst => dst.toNat
  | copy _ dst _ => dst.toNat

/-- The end of what an operation reads. -/
def srcEnd : Op → Nat
  | swap w count src _ => src.toNat + w.bytes.toNat * count.toNat
  | copy src _ len => src.toNat + len.toNat

/-- The end of what an operation writes. -/
def dstEnd : Op → Nat
  | swap w count _ dst => dst.toNat + w.bytes.toNat * count.toNat
  | copy _ dst len => dst.toNat + len.toNat

/-- An operation that reads within `s` bytes and writes within `d`. -/
def Within (s d : Nat) (op : Op) : Prop := op.srcEnd ≤ s ∧ op.dstEnd ≤ d

/-- What an operation writes, and where. -/
def write (e : Endian) (src : Bytes) : Op → Write UInt8
  | swap w count s d =>
    let n := w.bytes.toNat
    (d.toNat, swapBytes e n count.toNat ((src.drop s.toNat).take (n * count.toNat)))
  | copy s d len => (d.toNat, (src.drop s.toNat).take len.toNat)

theorem write_end (e : Endian) {src : Bytes} {op : Op} (h : op.srcEnd ≤ src.length) :
    (op.write e src).1 + (op.write e src).2.length = op.dstEnd := by
  cases op with
  | swap w count s d => simp [write, dstEnd]
  | copy s d len =>
    have hlen : s.toNat + len.toNat ≤ src.length := h
    simp only [write, dstEnd, List.length_take, List.length_drop]
    omega

end Op

/-! ### Joining operations -/

/-- Running `ops'` is running `ops` and then `op`, within the same bounds. -/
structure Adds (ops : List Op) (op : Op) (ops' : List Op) : Prop where
  within : ∀ {s d}, (∀ o ∈ ops, o.Within s d) → op.Within s d → ∀ o ∈ ops', o.Within s d
  writes : ∀ e {src dst}, (∀ o ∈ ops, o.Within src.length dst.length) →
    op.Within src.length dst.length → writeAll dst (ops'.map (Op.write e src)) =
      writeAll dst ((ops ++ [op]).map (Op.write e src))

theorem Adds.push (ops : List Op) (op : Op) : Adds ops op (ops ++ [op]) where
  within := by
    intro s d hops hop o ho
    rcases List.mem_append.mp ho with ho | ho
    · exact hops o ho
    · rw [List.mem_singleton.mp ho]
      exact hop
  writes _ _ _ _ _ := rfl

/-- The operation `c` is `a` and then `b`, which reads and writes where `a` ends. -/
structure Op.Joins (a b c : Op) : Prop where
  srcEnd : c.srcEnd = b.srcEnd
  dstEnd : c.dstEnd = b.dstEnd
  place : ∀ e src, (c.write e src).1 = (a.write e src).1
  next : ∀ e {src}, b.srcEnd ≤ src.length → (b.write e src).1 = (a.write e src).1 + (a.write e src).2.length
  bytes : ∀ e {src}, b.srcEnd ≤ src.length → (c.write e src).2 = (a.write e src).2 ++ (b.write e src).2

theorem Op.Joins.adds {a b c : Op} (h : a.Joins b c) (pre : List Op) :
    Adds (pre ++ [a]) b (pre ++ [c]) where
  within := by
    intro s d hops hb o ho
    rcases List.mem_append.mp ho with ho | ho
    · exact hops o (by simp [ho])
    · rw [List.mem_singleton.mp ho, Within, h.srcEnd, h.dstEnd]
      exact hb
  writes := by
    intro e src dst hops hb
    have hpre : ∀ w ∈ pre.map (Op.write e src), w.Within dst.length := by
      intro w hw
      obtain ⟨o, ho, rfl⟩ := List.mem_map.mp hw
      obtain ⟨hsrc, hdst⟩ := hops o (by simp [ho])
      rw [Write.Within, write_end e hsrc]
      exact hdst
    have hc : (c.write e src).1 + (c.write e src).2.length ≤ dst.length := by
      rw [write_end e (h.srcEnd ▸ hb.1), h.dstEnd]
      exact hb.2
    rw [h.place, h.bytes e hb.1, ← length_writeAll hpre] at hc
    simp only [List.map_append, List.map_cons, List.map_nil, writeAll_concat]
    rw [h.place, h.bytes e hb.1, h.next e hb.1]
    exact splice_append hc

theorem joins_swap {w : SwapWidth} {count count' : UInt16} {ps pd src dst : UInt32}
    (hcount : count'.toNat = count.toNat + 1)
    (hsrc : src.toNat = ps.toNat + w.bytes.toNat * count.toNat)
    (hdst : dst.toNat = pd.toNat + w.bytes.toNat * count.toNat) :
    (Op.swap w count ps pd).Joins (.swap w 1 src dst) (.swap w count' ps pd) where
  srcEnd := by
    simp only [Op.srcEnd, hcount, hsrc, Nat.mul_add]
    simp [Nat.add_assoc]
  dstEnd := by
    simp only [Op.dstEnd, hcount, hdst, Nat.mul_add]
    simp [Nat.add_assoc]
  place _ _ := rfl
  next e source _ := by simp [Op.write, hdst]
  bytes := by
    intro e source hle
    rw [Op.srcEnd, hsrc] at hle
    have hlen : ((source.drop ps.toNat).take (w.bytes.toNat * count.toNat)).length =
        w.bytes.toNat * count.toNat := by
      rw [List.length_take, List.length_drop]
      omega
    simp only [Op.write, hcount, Nat.mul_add, hsrc]
    rw [List.take_add, swapBytes_append e 1 _ hlen, List.drop_drop]
    rfl

theorem joins_copy {ps pd pl src dst len len' : UInt32} (hlen : len'.toNat = pl.toNat + len.toNat)
    (hsrc : src.toNat = ps.toNat + pl.toNat) (hdst : dst.toNat = pd.toNat + pl.toNat) :
    (Op.copy ps pd pl).Joins (.copy src dst len) (.copy ps pd len') where
  srcEnd := by simp only [Op.srcEnd, hlen, hsrc, Nat.add_assoc]
  dstEnd := by simp only [Op.dstEnd, hlen, hdst, Nat.add_assoc]
  place _ _ := rfl
  next := by
    intro e source hle
    rw [Op.srcEnd, hsrc] at hle
    simp only [Op.write, hdst, List.length_take, List.length_drop]
    omega
  bytes := by
    intro e source _
    simp only [Op.write, hlen, hsrc]
    rw [List.take_add, List.drop_drop]

/-- `b` reads and writes where `a` ends, and in its way. -/
structure Op.Mergeable (a b : Op) : Prop where
  kind : a.kind = b.kind
  src : a.srcEnd = b.src
  dst : a.dstEnd = b.dst

/-- A swap that cannot take one integer more. -/
def Op.Full (a : Op) : Prop := a.count = some 0xFFFF

/-- `c` is what `push_swap` and `push_copy` make of `a` when they are to add `b`. -/
inductive Op.Merges : Op → Op → Op → Prop
  | swap {w : SwapWidth} {count count' : UInt16} {ps pd src dst : UInt32}
    (hcount : count'.toNat = count.toNat + 1)
    (hsrc : src.toNat = ps.toNat + w.bytes.toNat * count.toNat)
    (hdst : dst.toNat = pd.toNat + w.bytes.toNat * count.toNat) :
    Merges (.swap w count ps pd) (.swap w 1 src dst) (.swap w count' ps pd)
  | copy {ps pd pl src dst len len' : UInt32} (hlen : len'.toNat = pl.toNat + len.toNat)
    (hsrc : src.toNat = ps.toNat + pl.toNat) (hdst : dst.toNat = pd.toNat + pl.toNat) :
    Merges (.copy ps pd pl) (.copy src dst len) (.copy ps pd len')

theorem Op.Merges.joins {a b c : Op} (h : a.Merges b c) : a.Joins b c := by
  cases h with
  | swap hcount hsrc hdst => exact joins_swap hcount hsrc hdst
  | copy hlen hsrc hdst => exact joins_copy hlen hsrc hdst

/-- `push_swap` or `push_copy` of `op`: the last operation takes it in, unless the two are apart or
the last one is full. -/
inductive Pushed (ops : List Op) (op : Op) : List Op → Prop
  | merged {pre : List Op} {a c : Op} (hops : ops = pre ++ [a]) (hmerges : a.Merges op c) :
    Pushed ops op (pre ++ [c])
  | apart (hlast : ∀ a ∈ ops.getLast?, a.Mergeable op → a.Full) : Pushed ops op (ops ++ [op])

theorem Pushed.adds {ops ops' : List Op} {op : Op} (h : Pushed ops op ops') : Adds ops op ops' := by
  cases h with
  | merged hops hmerges =>
    rw [hops]
    exact hmerges.joins.adds _
  | apart => exact Adds.push ops op

theorem SwapWidth.bytes_le (w : SwapWidth) : w.bytes.toNat ≤ 16 := by
  cases w <;> decide

theorem toNat_swapRun (w : SwapWidth) (count : UInt16) :
    count.toUInt32.toNat * w.bytes.toNat < 2 ^ 32 ∧
      (count.toUInt32 * w.bytes).toNat = w.bytes.toNat * count.toNat := by
  have hrun : count.toUInt32.toNat * w.bytes.toNat < 2 ^ 32 := by
    have hcount := count.toNat_lt
    have hle := Nat.mul_le_mul (Nat.le_of_lt hcount) w.bytes_le
    rw [UInt16.toNat_toUInt32]
    omega
  refine ⟨hrun, ?_⟩
  rw [UInt32.toNat_mul, Nat.mod_eq_of_lt hrun, UInt16.toNat_toUInt32, Nat.mul_comm]

theorem pushSwap_pushed {ε : Type} {ops : List Op}
    (h : ∀ op ∈ ops, op.Within (2 ^ 32 - 1) (2 ^ 32 - 1)) (w : SwapWidth) (src dst : UInt32) :
    ∃ ops', (pushSwap ops w src dst : Outcome ε _) = .ok ops' ∧ Pushed ops (.swap w 1 src dst) ops' := by
  rw [pushSwap]
  split
  case h_2 hcopy =>
    refine ⟨_, rfl, .apart fun a ha hmerge => ?_⟩
    cases a with
    | swap => exact (hcopy _ _ _ _ ha).elim
    | copy => cases hmerge.kind
  case h_1 pw count ps pd hlast =>
  obtain ⟨hrun, hrun'⟩ := toNat_swapRun pw count
  obtain ⟨pre, rfl⟩ := List.getLast?_eq_some_iff.mp hlast
  obtain ⟨hsrcEnd, hdstEnd⟩ := h _ (List.mem_append_right pre (List.mem_singleton_self _))
  rw [Op.srcEnd, ← hrun'] at hsrcEnd
  rw [Op.dstEnd, ← hrun'] at hdstEnd
  have hsrcSum := toNat_u32SaturatingAdd (a := ps) (b := count.toUInt32 * pw.bytes) (by omega)
  have hdstSum := toNat_u32SaturatingAdd (a := pd) (b := count.toUInt32 * pw.bytes) (by omega)
  have hapart : ((Op.swap pw count ps pd).Mergeable (.swap w 1 src dst) → count.toNat = 0xFFFF) →
      Pushed (pre ++ [.swap pw count ps pd]) (.swap w 1 src dst)
        (pre ++ [.swap pw count ps pd] ++ [.swap w 1 src dst]) := by
    intro hfull
    refine .apart fun a ha hmerge => ?_
    obtain rfl : _ = a := Option.some.inj (hlast.symm.trans ha)
    exact congrArg some (hfull hmerge)
  split_ifs with hsame
  · obtain ⟨rfl, hcount⟩ := hsame
    have hlt : count.toNat < 0xFFFF := hcount
    rw [u32Mul_eq hrun, Outcome.ok_bind, u16Incr_eq (by omega), List.dropLast_concat]
    split_ifs with habut
    · obtain ⟨rfl, rfl⟩ := habut
      have hcount' : (count + 1).toNat = count.toNat + 1 := by
        rw [UInt16.toNat_add, UInt16.toNat_one, Nat.mod_eq_of_lt (by omega)]
      exact ⟨_, rfl, .merged rfl (.swap hcount' (by rw [hsrcSum, hrun']) (by rw [hdstSum, hrun']))⟩
    · refine ⟨_, rfl, hapart fun hmerge => absurd ⟨?_, ?_⟩ habut⟩
      · rw [← UInt32.toNat_inj, hsrcSum, hrun']
        exact hmerge.src
      · rw [← UInt32.toNat_inj, hdstSum, hrun']
        exact hmerge.dst
  · refine ⟨_, rfl, hapart fun hmerge => ?_⟩
    have hle : ¬ count.toNat < 0xFFFF := fun hlt => hsame ⟨Option.some.inj hmerge.kind, hlt⟩
    have hcount := count.toNat_lt
    omega

theorem pushCopy_pushed {ops : List Op} (h : ∀ op ∈ ops, op.Within (2 ^ 32 - 1) (2 ^ 32 - 1))
    {src dst len : UInt32} (hdst : dst.toNat + len.toNat < 2 ^ 32) :
    Pushed ops (.copy src dst len) (pushCopy ops src dst len) := by
  rw [pushCopy]
  split
  case h_2 hswap =>
    refine .apart fun a ha hmerge => ?_
    cases a with
    | swap => cases hmerge.kind
    | copy => exact (hswap _ _ _ ha).elim
  case h_1 ps pd pl hlast =>
  obtain ⟨pre, rfl⟩ := List.getLast?_eq_some_iff.mp hlast
  obtain ⟨hsrcEnd, hdstEnd⟩ := h _ (List.mem_append_right pre (List.mem_singleton_self _))
  rw [Op.srcEnd] at hsrcEnd
  rw [Op.dstEnd] at hdstEnd
  have hsrcSum := toNat_u32SaturatingAdd (a := ps) (b := pl) (by omega)
  have hdstSum := toNat_u32SaturatingAdd (a := pd) (b := pl) (by omega)
  split_ifs with habut
  · obtain ⟨rfl, rfl⟩ := habut
    cases hadd : u32CheckedAdd pl len with
    | none =>
      have hover := u32CheckedAdd_eq_none hadd
      omega
    | some len' =>
      rw [List.dropLast_concat]
      exact .merged rfl (.copy (u32CheckedAdd_eq_some hadd) hsrcSum hdstSum)
  · refine .apart fun a ha hmerge => absurd ⟨?_, ?_⟩ habut
    · obtain rfl : _ = a := Option.some.inj (hlast.symm.trans ha)
      rw [← UInt32.toNat_inj, hsrcSum]
      exact hmerge.src
    · obtain rfl : _ = a := Option.some.inj (hlast.symm.trans ha)
      rw [← UInt32.toNat_inj, hdstSum]
      exact hmerge.dst

/-! ### What a plan is for -/

/-- A field's value as a destination holds it: an integer in the byte order of the machine when it
has the size of one. -/
def nativeBytes (e : Endian) (v : Bytes) : Bytes :=
  if v.length ∈ [2, 4, 8, 16] then toNe e v.length (fromBe v) else v

@[simp] theorem length_nativeBytes (e : Endian) (v : Bytes) : (nativeBytes e v).length = v.length := by
  rw [nativeBytes]
  split_ifs <;> simp

/-- One value of its length for each field. -/
def Sized (fs : List FieldSpecifier) (vs : List Bytes) : Prop :=
  List.Forall₂ (fun f v => v.length = f.fieldLength.toNat) fs vs

theorem Sized.length_flatten {fs : List FieldSpecifier} {vs : List Bytes} (h : Sized fs vs) :
    vs.flatten.length = (fs.map fun f => f.fieldLength.toNat).sum := by
  induction h with
  | nil => rfl
  | cons hv _ ih => rw [List.flatten_cons, List.length_append, hv, ih, List.map_cons, List.sum_cons]

theorem Sized.concat_left {fs : List FieldSpecifier} {f : FieldSpecifier} {vs : List Bytes}
    (h : Sized (fs ++ [f]) vs) :
    ∃ vs' v, vs = vs' ++ [v] ∧ Sized fs vs' ∧ v.length = f.fieldLength.toNat :=
  forall₂_concat_left h

/-- The write of a mapped field's value. -/
def fieldWrite (e : Endian) (mappings : List Mapping) (x : FieldSpecifier × Bytes) :
    Option (Write UInt8) :=
  (mappings.find? fun m => m.matches x.1).map fun m => (m.dstOffset.toNat, nativeBytes e x.2)

/-- The writes of the mapped fields' values, in the order of the template. -/
def fieldWrites (e : Endian) (mappings : List Mapping) (fs : List FieldSpecifier) (vs : List Bytes) :
    List (Write UInt8) := (fs.zip vs).filterMap (fieldWrite e mappings)

theorem fieldWrites_concat (e : Endian) (mappings : List Mapping) {fs : List FieldSpecifier}
    {vs : List Bytes} (h : Sized fs vs) (f : FieldSpecifier) (v : Bytes) :
    fieldWrites e mappings (fs ++ [f]) (vs ++ [v]) =
      fieldWrites e mappings fs vs ++ (fieldWrite e mappings (f, v)).toList := by
  rw [fieldWrites, fieldWrites, List.zip_append (List.Forall₂.length_eq h), List.filterMap_append]
  congr 1

/-- The end of a field's value in the destination, where a mapping names the field. -/
def mappedEnd (mappings : List Mapping) (f : FieldSpecifier) : Option Nat :=
  (mappings.find? fun m => m.matches f).map fun m => m.dstOffset.toNat + f.fieldLength.toNat

/-- The largest end of a mapped field's value, 0 when there is none. -/
def largestEnd (mappings : List Mapping) (fs : List FieldSpecifier) : Nat :=
  (fs.filterMap (mappedEnd mappings)).foldl max 0

theorem largestEnd_concat (mappings : List Mapping) (fs : List FieldSpecifier) (f : FieldSpecifier) :
    largestEnd mappings (fs ++ [f]) = max (largestEnd mappings fs) ((mappedEnd mappings f).getD 0) := by
  rw [largestEnd, List.filterMap_append, List.foldl_append]
  cases h : mappedEnd mappings f with
  | none => simp [h, largestEnd]
  | some n => simp [h, largestEnd]

theorem largestEnd_mono (mappings : List Mapping) (fs fs' : List FieldSpecifier) :
    largestEnd mappings fs ≤ largestEnd mappings (fs ++ fs') := by
  induction fs' using List.reverseRecOn with
  | nil => rw [List.append_nil]
  | append_singleton fs' f ih =>
    rw [← List.append_assoc, largestEnd_concat]
    exact Nat.le_trans ih (Nat.le_max_left _ _)

/-! ### What the loop knows -/

/-- What the loop of `DecodePlan::build` knows after the fields `fs`. -/
structure PlanState.Inv (mappings : List Mapping) (fs : List FieldSpecifier) (st : PlanState) :
    Prop where
  srcOff : st.srcOff.toNat = (fs.map fun f => f.fieldLength.toNat).sum
  within : ∀ op ∈ st.ops, op.Within st.srcOff.toNat st.dstMax.toNat
  fits : ∀ f ∈ fs, ∀ m, (mappings.find? fun m => m.matches f) = some m →
    m.dstOffset.toNat + f.fieldLength.toNat ≤ st.dstMax.toNat
  writes : ∀ e {vs} (rest : Bytes) {dst : Bytes}, Sized fs vs → st.dstMax.toNat ≤ dst.length →
    writeAll dst (st.ops.map (Op.write e (vs.flatten ++ rest))) =
      writeAll dst (fieldWrites e mappings fs vs)

theorem PlanState.start_inv (mappings : List Mapping) : Inv mappings [] ⟨[], 0, 0⟩ where
  srcOff := rfl
  within := by simp
  fits := by simp
  writes := by
    intro e vs rest dst hvs _
    cases hvs
    rfl

/-- The operation that writes one field. -/
def fieldOp (f : FieldSpecifier) (src dst : UInt32) : Op :=
  match SwapWidth.fromFieldLength f.fieldLength with
  | some w => .swap w 1 src dst
  | none => .copy src dst f.fieldLength.toUInt32

theorem SwapWidth.bytes_of_fromFieldLength {len : UInt16} {w : SwapWidth}
    (h : fromFieldLength len = some w) : w.bytes.toNat = len.toNat := by
  rw [fromFieldLength] at h
  split_ifs at h with h2 h4 h8 h16 <;> cases h
  · simp [bytes, h2]
  · simp [bytes, h4]
  · simp [bytes, h8]
  · simp [bytes, h16]

theorem SwapWidth.fromFieldLength_isSome_iff (len : UInt16) :
    (fromFieldLength len).isSome ↔ len.toNat ∈ [2, 4, 8, 16] := by
  have hword : ∀ n : UInt16, len = n ↔ len.toNat = n.toNat := fun n => UInt16.toNat_inj.symm
  rw [fromFieldLength]
  split_ifs <;> simp_all

theorem fieldOp_ends (f : FieldSpecifier) (src dst : UInt32) :
    (fieldOp f src dst).srcEnd = src.toNat + f.fieldLength.toNat ∧
      (fieldOp f src dst).dstEnd = dst.toNat + f.fieldLength.toNat := by
  rw [fieldOp]
  cases h : SwapWidth.fromFieldLength f.fieldLength with
  | none => simp [Op.srcEnd, Op.dstEnd]
  | some w => simp [Op.srcEnd, Op.dstEnd, SwapWidth.bytes_of_fromFieldLength h]

theorem fieldOp_write (e : Endian) {f : FieldSpecifier} {v source : Bytes} {src : UInt32} (dst : UInt32)
    (hv : v.length = f.fieldLength.toNat)
    (hsource : (source.drop src.toNat).take f.fieldLength.toNat = v) :
    (fieldOp f src dst).write e source = (dst.toNat, nativeBytes e v) := by
  have hswap := SwapWidth.fromFieldLength_isSome_iff f.fieldLength
  rw [fieldOp, nativeBytes, hv, ← if_congr hswap rfl rfl]
  cases h : SwapWidth.fromFieldLength f.fieldLength with
  | none => simp [Op.write, hsource]
  | some w =>
    have hw := SwapWidth.bytes_of_fromFieldLength h
    simp only [Op.write, UInt16.toNat_one, Nat.mul_one, hw, hsource, swapBytes, List.append_nil]
    rw [← hv, List.take_length]
    rfl

theorem planMapped_pushed {st : PlanState}
    (h : ∀ op ∈ st.ops, op.Within st.srcOff.toNat st.dstMax.toNat) (f : FieldSpecifier) (m : Mapping) :
    planMapped st f m = .err .invalidLength ∧ 2 ^ 32 ≤ m.dstOffset.toNat + f.fieldLength.toNat ∨
      ∃ ops' dstMax', planMapped st f m = .ok { st with ops := ops', dstMax := dstMax' } ∧
        Pushed st.ops (fieldOp f st.srcOff m.dstOffset) ops' ∧
        dstMax'.toNat = max st.dstMax.toNat (m.dstOffset.toNat + f.fieldLength.toNat) := by
  have hwords : ∀ op ∈ st.ops, op.Within (2 ^ 32 - 1) (2 ^ 32 - 1) := by
    intro op hop
    obtain ⟨hsrc, hdst⟩ := h op hop
    exact ⟨Nat.le_trans hsrc (Nat.le_pred_of_lt st.srcOff.toNat_lt),
      Nat.le_trans hdst (Nat.le_pred_of_lt st.dstMax.toNat_lt)⟩
  rw [planMapped]
  cases hend : u32CheckedAdd m.dstOffset f.fieldLength.toUInt32 with
  | none =>
    have hover := u32CheckedAdd_eq_none hend
    rw [UInt16.toNat_toUInt32] at hover
    exact .inl ⟨rfl, hover⟩
  | some dstEnd =>
    have hdstEnd := u32CheckedAdd_eq_some hend
    rw [UInt16.toNat_toUInt32] at hdstEnd
    have hmax : (if dstEnd > st.dstMax then dstEnd else st.dstMax).toNat =
        max st.dstMax.toNat dstEnd.toNat := by
      split_ifs with hgt
      · exact (Nat.max_eq_right (Nat.le_of_lt hgt)).symm
      · exact (Nat.max_eq_left (Nat.le_of_not_lt hgt)).symm
    rw [← hdstEnd]
    simp only [Outcome.okOr_some, Outcome.ok_bind, Outcome.pure_eq]
    right
    rw [fieldOp]
    cases SwapWidth.fromFieldLength f.fieldLength with
    | none =>
      have hdst : m.dstOffset.toNat + f.fieldLength.toUInt32.toNat < 2 ^ 32 := by
        rw [UInt16.toNat_toUInt32, ← hdstEnd]
        exact dstEnd.toNat_lt
      exact ⟨_, _, rfl, pushCopy_pushed hwords hdst, hmax⟩
    | some w =>
      obtain ⟨ops', hpush, hpushed⟩ := pushSwap_pushed (ε := Error) hwords w st.srcOff m.dstOffset
      refine ⟨ops', _, ?_, hpushed, hmax⟩
      simp only [hpush, Outcome.ok_bind]

theorem PlanState.Inv.concat {mappings : List Mapping} {fs : List FieldSpecifier} {st st' : PlanState}
    {f : FieldSpecifier} (hst : st.Inv mappings fs)
    (hoff : st'.srcOff.toNat = st.srcOff.toNat + f.fieldLength.toNat)
    (hmax : st.dstMax.toNat ≤ st'.dstMax.toNat)
    (hunmapped : (mappings.find? fun m => m.matches f) = none → st'.ops = st.ops)
    (hmapped : ∀ m, (mappings.find? fun m => m.matches f) = some m →
      Adds st.ops (fieldOp f st.srcOff m.dstOffset) st'.ops ∧
        m.dstOffset.toNat + f.fieldLength.toNat ≤ st'.dstMax.toNat) :
    st'.Inv mappings (fs ++ [f]) := by
  have hold : ∀ op ∈ st.ops, op.Within st'.srcOff.toNat st'.dstMax.toNat := by
    intro op hop
    obtain ⟨hsrc, hdst⟩ := hst.within op hop
    exact ⟨by omega, Nat.le_trans hdst hmax⟩
  have hnew : ∀ m, (mappings.find? fun m => m.matches f) = some m →
      (fieldOp f st.srcOff m.dstOffset).Within st'.srcOff.toNat st'.dstMax.toNat := by
    intro m hm
    obtain ⟨hsrc, hdst⟩ := fieldOp_ends f st.srcOff m.dstOffset
    exact ⟨by omega, hdst ▸ (hmapped m hm).2⟩
  constructor
  case srcOff => simp [hoff, hst.srcOff]
  case within =>
    cases hfind : mappings.find? fun m => m.matches f with
    | none => rwa [hunmapped hfind]
    | some m => exact (hmapped m hfind).1.within hold (hnew m hfind)
  case fits =>
    intro g hg m hm
    rcases List.mem_append.mp hg with hg | hg
    · exact Nat.le_trans (hst.fits g hg m hm) hmax
    · rw [List.mem_singleton.mp hg] at hm ⊢
      exact (hmapped m hm).2
  case writes =>
    intro e vs rest dst hvs hdst
    obtain ⟨vs, v, rfl, hvs, hv⟩ := hvs.concat_left
    have hsplit : (vs ++ [v]).flatten ++ rest = vs.flatten ++ (v ++ rest) := by simp
    have hdst' := Nat.le_trans hmax hdst
    have hprefix := hst.writes e (v ++ rest) hvs hdst'
    rw [hsplit, fieldWrites_concat e mappings hvs]
    cases hfind : mappings.find? fun m => m.matches f with
    | none =>
      rw [hunmapped hfind, hprefix, fieldWrite, hfind]
      simp
    | some m =>
      have hlen : vs.flatten.length = st.srcOff.toNat := hvs.length_flatten.trans hst.srcOff.symm
      have hsource : ((vs.flatten ++ (v ++ rest)).drop st.srcOff.toNat).take f.fieldLength.toNat =
          v := by
        rw [List.drop_left' hlen, List.take_left' hv]
      have hroom : st'.srcOff.toNat ≤ (vs.flatten ++ (v ++ rest)).length := by
        simp only [List.length_append]
        omega
      have hwithin : ∀ {op : Op}, op.Within st'.srcOff.toNat st'.dstMax.toNat →
          op.Within (vs.flatten ++ (v ++ rest)).length dst.length :=
        fun hop => ⟨Nat.le_trans hop.1 hroom, Nat.le_trans hop.2 hdst⟩
      rw [(hmapped m hfind).1.writes e (fun op hop => hwithin (hold op hop)) (hwithin (hnew m hfind)),
        List.map_append, List.map_singleton, writeAll_concat, hprefix, fieldWrite, hfind,
        fieldOp_write e _ hv hsource]
      simp only [Option.map_some, Option.toList_some, writeAll_concat]

theorem planField_inv {mappings : List Mapping} {fs : List FieldSpecifier} {st : PlanState}
    (hst : st.Inv mappings fs) (f : FieldSpecifier) :
    planField mappings st f = .err .invalidLength ∧
        (2 ^ 32 ≤ st.srcOff.toNat + f.fieldLength.toNat ∨ 2 ^ 32 ≤ (mappedEnd mappings f).getD 0) ∨
      ∃ st', planField mappings st f = .ok st' ∧ st'.Inv mappings (fs ++ [f]) ∧
        st'.dstMax.toNat = max st.dstMax.toNat ((mappedEnd mappings f).getD 0) := by
  cases hfind : mappings.find? fun m => m.matches f with
  | none =>
    cases hoff : u32CheckedAdd st.srcOff f.fieldLength.toUInt32 with
    | none =>
      refine .inl ⟨by simp [planField, hfind, hoff], .inl ?_⟩
      simpa using u32CheckedAdd_eq_none hoff
    | some srcOff =>
      have hoff' : srcOff.toNat = st.srcOff.toNat + f.fieldLength.toNat := by
        simpa using u32CheckedAdd_eq_some hoff
      refine .inr ⟨{ st with srcOff }, by simp [planField, hfind, hoff], ?_, ?_⟩
      · exact hst.concat hoff' (Nat.le_refl _) (fun _ => rfl) (by simp [hfind])
      · simp [mappedEnd, hfind]
  | some m =>
    have hend : (mappedEnd mappings f).getD 0 = m.dstOffset.toNat + f.fieldLength.toNat := by
      simp [mappedEnd, hfind]
    rw [hend]
    rcases planMapped_pushed hst.within f m with ⟨herr, hover⟩ | ⟨ops', dstMax', hok, hpushed, hmax⟩
    · exact .inl ⟨by simp [planField, hfind, herr], .inr hover⟩
    cases hoff : u32CheckedAdd st.srcOff f.fieldLength.toUInt32 with
    | none =>
      refine .inl ⟨by simp [planField, hfind, hok, hoff], .inl ?_⟩
      simpa using u32CheckedAdd_eq_none hoff
    | some srcOff =>
      have hoff' : srcOff.toNat = st.srcOff.toNat + f.fieldLength.toNat := by
        simpa using u32CheckedAdd_eq_some hoff
      refine .inr ⟨⟨ops', srcOff, dstMax'⟩, by simp [planField, hfind, hok, hoff], ?_, hmax⟩
      refine hst.concat hoff' (hmax ▸ Nat.le_max_left _ _) (by simp [hfind]) fun m' hm' => ?_
      obtain rfl : m = m' := Option.some.inj (hfind.symm.trans hm')
      exact ⟨hpushed.adds, hmax ▸ Nat.le_max_right _ _⟩

theorem planFields_inv {mappings : List Mapping} (fs' : List FieldSpecifier) {fs : List FieldSpecifier}
    {st : PlanState} (hst : st.Inv mappings fs) (hmax : st.dstMax.toNat = largestEnd mappings fs) :
    fs'.foldlM (planField mappings) st = .err .invalidLength ∧
        (2 ^ 32 ≤ ((fs ++ fs').map fun f => f.fieldLength.toNat).sum ∨
          2 ^ 32 ≤ largestEnd mappings (fs ++ fs')) ∨
      ∃ st', fs'.foldlM (planField mappings) st = .ok st' ∧ st'.Inv mappings (fs ++ fs') ∧
        st'.dstMax.toNat = largestEnd mappings (fs ++ fs') := by
  induction fs' generalizing fs st with
  | nil => exact .inr ⟨st, rfl, by rwa [List.append_nil], by rwa [List.append_nil]⟩
  | cons f fs' ih =>
    rw [List.foldlM_cons, List.append_cons]
    rcases planField_inv hst f with ⟨herr, hover⟩ | ⟨st₁, hstep, hst₁, hmax₁⟩
    · rw [herr]
      refine .inl ⟨rfl, hover.imp (fun hsrc => ?_) fun hdst => ?_⟩
      · rw [hst.srcOff] at hsrc
        simp only [List.map_append, List.sum_append, List.map_cons, List.sum_cons, List.map_nil,
          List.sum_nil]
        omega
      · refine Nat.le_trans hdst (Nat.le_trans ?_ (largestEnd_mono _ _ _))
        rw [largestEnd_concat]
        exact Nat.le_max_right _ _
    · rw [hstep, Outcome.ok_bind]
      exact ih hst₁ (by rw [hmax₁, largestEnd_concat, hmax])

/-! ### Building -/

/-- The information element a mapping is for. -/
def Mapping.name (m : Mapping) : UInt16 × Option UInt32 := (m.ieId, m.enterprise)

/-- The information element of a field. -/
def FieldSpecifier.name (f : FieldSpecifier) : UInt16 × Option UInt32 :=
  (f.informationElementId, f.enterpriseNumber)

theorem Mapping.matches_iff {m : Mapping} {f : FieldSpecifier} : m.matches f ↔ m.name = f.name := by
  simp [Mapping.matches, name, FieldSpecifier.name]

theorem checkMapping_eq {mappings : List Mapping} {x : Mapping × Nat} (hx : x ∈ mappings.zipIdx) :
    checkMapping mappings x =
      if ∃ n ∈ mappings.take x.2, n.name = x.1.name then .err .duplicateMapping else .ok () := by
  have hlt := (List.getElem?_eq_some_iff.mp (List.mem_zipIdx_iff_getElem?.mp hx)).1
  rw [checkMapping, sliceTo_eq (Nat.le_of_lt hlt), Outcome.ok_bind]
  apply if_congr
  · simp [Mapping.name]
  · rfl
  · rfl

/-- The duplicate check of `DecodePlan::build` does what it is for. -/
theorem checkDuplicates_spec (mappings : List Mapping) :
    checkDuplicates mappings = .err .duplicateMapping ∧ ¬ (mappings.map Mapping.name).Nodup ∨
      checkDuplicates mappings = .ok () ∧ (mappings.map Mapping.name).Nodup := by
  have hcases : ∀ x ∈ mappings.zipIdx,
      checkMapping mappings x = .err .duplicateMapping ∨ checkMapping mappings x = .ok () := by
    intro x hx
    rw [checkMapping_eq hx]
    split_ifs
    · exact .inl rfl
    · exact .inr rfl
  rw [List.Nodup, List.pairwise_map, List.pairwise_iff_getElem]
  rcases Outcome.forM_cases hcases with ⟨herr, ⟨m, j⟩, hx, hdup⟩ | ⟨hok, hall⟩
  · refine .inl ⟨herr, fun hnodup => ?_⟩
    rw [checkMapping_eq hx] at hdup
    split_ifs at hdup with hbefore
    obtain ⟨n, hn, hname⟩ := hbefore
    obtain ⟨i, hi, rfl⟩ := List.mem_take_iff_getElem.mp hn
    have hget : mappings[j]? = some m := List.mem_zipIdx_iff_getElem?.mp hx
    obtain ⟨hj, rfl⟩ := List.getElem?_eq_some_iff.mp hget
    have hlt : i < min j mappings.length := hi
    exact hnodup i j (by omega) hj (by omega) hname
  · refine .inr ⟨hok, ?_⟩
    intro i j hi hj hij heq
    have hmem : (mappings[j], j) ∈ mappings.zipIdx :=
      List.mem_zipIdx_iff_getElem?.mpr (List.getElem?_eq_getElem hj)
    have hj' := (checkMapping_eq hmem).symm.trans (hall _ hmem)
    rw [if_pos ⟨mappings[i], List.mem_take_iff_getElem.mpr ⟨i, by omega, rfl⟩, heq⟩] at hj'
    cases hj'

/-- What `DecodePlan::build` returns, in the order of its checks. -/
inductive DecodePlan.Built (t : TemplateRef) (mappings : List Mapping) :
    Outcome Error DecodePlan → Prop
  | variableLength (hvar : ∃ f ∈ t.fields, f.fieldLength = variableLength) :
    Built t mappings (.err .variableLengthInPlan)
  | duplicate (hvar : ∀ f ∈ t.fields, f.fieldLength ≠ IpfixParser.variableLength)
    (hdup : ¬ (mappings.map Mapping.name).Nodup) : Built t mappings (.err .duplicateMapping)
  | tooLong (hvar : ∀ f ∈ t.fields, f.fieldLength ≠ IpfixParser.variableLength)
    (hnodup : (mappings.map Mapping.name).Nodup)
    (hlong : 2 ^ 32 ≤ (t.fields.map fun f => f.fieldLength.toNat).sum ∨
      2 ^ 32 ≤ largestEnd mappings t.fields) : Built t mappings (.err .invalidLength)
  | notFound {st : PlanState} (hvar : ∀ f ∈ t.fields, f.fieldLength ≠ IpfixParser.variableLength)
    (hnodup : (mappings.map Mapping.name).Nodup) (hst : st.Inv mappings t.fields)
    (hmax : st.dstMax.toNat = largestEnd mappings t.fields)
    (hunused : ∃ m ∈ mappings, ∀ f ∈ t.fields, m.name ≠ f.name) :
    Built t mappings (.err .mappingNotFound)
  | plan {st : PlanState} (hvar : ∀ f ∈ t.fields, f.fieldLength ≠ IpfixParser.variableLength)
    (hnodup : (mappings.map Mapping.name).Nodup) (hst : st.Inv mappings t.fields)
    (hmax : st.dstMax.toNat = largestEnd mappings t.fields)
    (hused : ∀ m ∈ mappings, ∃ f ∈ t.fields, m.name = f.name) :
    Built t mappings (.ok ⟨st.srcOff, st.dstMax, st.ops⟩)

theorem DecodePlan.built (t : TemplateRef) (mappings : List Mapping) :
    Built t mappings (build t mappings) := by
  rw [build]
  by_cases hvar : t.fields.any fun f => f.fieldLength == IpfixParser.variableLength
  · rw [if_pos hvar]
    exact .variableLength (by simpa using hvar)
  rw [if_neg hvar]
  have hvar' : ∀ f ∈ t.fields, f.fieldLength ≠ IpfixParser.variableLength := by simpa using hvar
  rcases checkDuplicates_spec mappings with ⟨hdup, hnot⟩ | ⟨hdup, hnodup⟩
  · rw [hdup]
    exact .duplicate hvar' hnot
  rw [hdup, Outcome.ok_bind]
  rcases planFields_inv t.fields (PlanState.start_inv mappings) rfl with
    ⟨herr, hlong⟩ | ⟨st, hrun, hst, hmax⟩
  · rw [herr]
    exact .tooLong hvar' hnodup hlong
  rw [hrun, Outcome.ok_bind]
  by_cases hunused : mappings.any fun m => !t.fields.any fun f => m.matches f
  · rw [if_pos hunused]
    exact .notFound hvar' hnodup hst hmax (by simpa [Mapping.matches_iff] using hunused)
  · rw [if_neg hunused]
    exact .plan hvar' hnodup hst hmax (by simpa [Mapping.matches_iff] using hunused)

/-- A plan is what the loop of `DecodePlan::build` ends with. -/
theorem DecodePlan.inv_of_build {t : TemplateRef} {mappings : List Mapping} {plan : DecodePlan}
    (h : build t mappings = .ok plan) :
    ∃ st : PlanState, plan = ⟨st.srcOff, st.dstMax, st.ops⟩ ∧ st.Inv mappings t.fields ∧
      st.dstMax.toNat = largestEnd mappings t.fields ∧
      (∀ f ∈ t.fields, f.fieldLength ≠ variableLength) ∧
      (mappings.map Mapping.name).Nodup ∧ ∀ m ∈ mappings, ∃ f ∈ t.fields, m.name = f.name := by
  have hbuilt := built t mappings
  rw [h] at hbuilt
  cases hbuilt with
  | plan hvar hnodup hst hmax hused => exact ⟨_, rfl, hst, hmax, hvar, hnodup, hused⟩

end IpfixParser

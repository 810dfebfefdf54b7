import IpfixParser.Wire.Record
import Mathlib.Data.List.Induction
import Mathlib.Algebra.Order.BigOperators.Group.List
import Mathlib.Algebra.Order.Group.Nat

/-!
# Finding the end of a record

`DataRecordIter` finds the end of a record in one of three ways. `walk` is the cursor they all move,
in plain numbers; `recordExtent` moves it field by field (`recordExtent_eq`), `recordExtentInline`
from one variable-length field to the next (`recordExtentInline_eq`, `walkGaps_gaps`), with distances
`DataRecordIter::new` has computed from the template (`LayoutScan.run_inv`). All stop where the fields
of the record end (`walk_of_cut`), so the iterator reads the records of its template
(`DataRecordIter.readsFrames`).
-/

namespace IpfixParser

open Lib

/-! ### The cursor -/

/-- The end of the variable-length field whose prefix is at `o`. -/
def prefixEnd (b : Bytes) (o : Nat) : Option Nat :=
  match b[o]? with
  | none => none
  | some first =>
    if first < 255 then some (o + (1 + first.toNat))
    else if o + 3 ≤ b.length then some (o + (3 + (u16At b (o + 1)).toNat))
    else none

/-- The end of the field at `o`. -/
def walkStep (b : Bytes) (o : Nat) (f : FieldSpecifier) : Option Nat :=
  if f.fieldLength = variableLength then prefixEnd b o else some (o + f.fieldLength.toNat)

/-- The end of the fields from `o` on. -/
def walk (b : Bytes) (fs : List FieldSpecifier) (o : Nat) : Option Nat := fs.foldlM (walkStep b) o

/-- The end of a record, unless that is not in the buffer. -/
def endIn (b : Bytes) : Option Nat → Outcome Error Nat
  | some o => if o > b.length then .err .unexpectedEof else .ok o
  | none => .err .unexpectedEof

theorem prefixEnd_bounds {b : Bytes} {o o' : Nat} (h : prefixEnd b o = some o') :
    o < b.length ∧ o < o' ∧ o' ≤ o + 65538 := by
  rw [prefixEnd] at h
  cases hfirst : b[o]? with
  | none => simp [hfirst] at h
  | some first =>
    have hlt := (List.getElem?_eq_some_iff.mp hfirst).1
    have hbyte := first.toNat_lt
    have hword := (u16At b (o + 1)).toNat_lt
    simp only [hfirst] at h
    split_ifs at h with hshort hlong
    · cases h
      omega
    · cases h
      omega

theorem varlenEnd_eq {tg : Target} {b : Bytes} (hb : b.length ≤ tg.isizeMax) (o : Nat) :
    varlenEnd tg b o = .okOr .unexpectedEof (prefixEnd b o) := by
  have hmax := tg.isizeMax_add_le
  rw [varlenEnd, prefixEnd]
  cases hfirst : b[o]? with
  | none => rfl
  | some first =>
    have hlt := (List.getElem?_eq_some_iff.mp hfirst).1
    have hbyte := first.toNat_lt
    have hword := (u16At b (o + 1)).toNat_lt
    simp only [Outcome.okOr_some, Outcome.ok_bind]
    by_cases hshort : first < 255
    · rw [if_pos hshort, if_pos hshort, usizeAdd_eq (by omega), Outcome.ok_bind,
        usizeCheckedAdd_eq (by omega)]
      rfl
    · rw [if_neg hshort, if_neg hshort, usizeAdd_eq (by omega), Outcome.ok_bind, getFrom,
        if_pos (by omega), Option.bind_some]
      by_cases hlong : o + 3 ≤ b.length
      · have hchunk : 2 ≤ (b.drop (o + 1)).length := by
          rw [List.length_drop]
          omega
        rw [if_pos hlong, firstChunk_eq hchunk, Outcome.okOr_some, Outcome.ok_bind]
        have hread : u16FromBe ((b.drop (o + 1)).take 2) = u16At b (o + 1) := rfl
        simp only [hread]
        rw [usizeAdd_eq (by omega), Outcome.ok_bind, usizeCheckedAdd_eq (by omega)]
        rfl
      · have hchunk : (b.drop (o + 1)).length < 2 := by
          rw [List.length_drop]
          omega
        rw [if_neg hlong, firstChunk_none hchunk]
        rfl

theorem walk_le {b : Bytes} {fs : List FieldSpecifier} {o o' : Nat} (h : walk b fs o = some o') :
    o' ≤ max o (b.length + 65538) + (fs.map FieldSpecifier.minSize).sum := by
  induction fs generalizing o with
  | nil =>
    cases h
    exact Nat.le_trans (Nat.le_max_left _ _) (Nat.le_add_right _ _)
  | cons f fs ih =>
    rw [walk, List.foldlM_cons] at h
    obtain ⟨o₁, hstep, h⟩ := Option.bind_eq_some_iff.mp h
    have hle := ih h
    rw [walkStep] at hstep
    rw [List.map_cons, List.sum_cons, FieldSpecifier.minSize]
    split_ifs at hstep ⊢ with hvar
    · have hbounds := prefixEnd_bounds hstep
      omega
    · cases hstep
      omega

theorem foldlM_extentStep_of_le {tg : Target} {b : Bytes} (hb : b.length ≤ tg.isizeMax)
    {fs : List FieldSpecifier} {o : Nat}
    (h : ∀ pre, pre <+: fs → ∀ o', walk b pre o = some o' → o' ≤ tg.usizeMax) :
    fs.foldlM (extentStep tg b) o = .okOr .unexpectedEof (walk b fs o) := by
  induction fs generalizing o with
  | nil => rfl
  | cons f fs ih =>
    have hrest : ∀ o₁, walkStep b o f = some o₁ →
        fs.foldlM (extentStep tg b) o₁ = .okOr .unexpectedEof (walk b fs o₁) := by
      intro o₁ hstep
      refine ih fun pre hpre o' hwalk => h (f :: pre) (List.cons_prefix_cons.mpr ⟨rfl, hpre⟩) o' ?_
      rw [walk, List.foldlM_cons, hstep]
      exact hwalk
    have hfirst : ∀ o', walkStep b o f = some o' → o' ≤ tg.usizeMax := by
      intro o' hstep
      refine h [f] (List.cons_prefix_cons.mpr ⟨rfl, List.nil_prefix⟩) o' ?_
      rw [walk, List.foldlM_cons, hstep]
      rfl
    rw [List.foldlM_cons, walk, List.foldlM_cons, extentStep]
    rw [walkStep] at hrest hfirst ⊢
    by_cases hvar : f.fieldLength = variableLength
    · rw [if_pos hvar] at hrest
      rw [if_pos hvar, if_pos hvar, varlenEnd_eq hb]
      cases hend : prefixEnd b o with
      | none => rfl
      | some o' => exact hrest o' hend
    · rw [if_neg hvar] at hrest hfirst
      rw [if_neg hvar, if_neg hvar, usizeCheckedAdd_eq (hfirst _ rfl)]
      exact hrest _ rfl

theorem sum_minSize_le_of_prefix {pre fs : List FieldSpecifier} (h : pre <+: fs) :
    (pre.map FieldSpecifier.minSize).sum ≤ (fs.map FieldSpecifier.minSize).sum := by
  obtain ⟨post, rfl⟩ := h
  rw [List.map_append, List.sum_append]
  exact Nat.le_add_right _ _

theorem recordExtent_eq {tg : Target} {b : Bytes} {t : TemplateRef} (hb : b.length ≤ tg.isizeMax)
    (hsize : b.length + 65538 + t.minSize ≤ tg.usizeMax) :
    recordExtent tg b t = endIn b (walk b t.fields 0) := by
  have hfold : t.fields.foldlM (extentStep tg b) 0 = .okOr .unexpectedEof (walk b t.fields 0) := by
    refine foldlM_extentStep_of_le hb fun pre hpre o' hwalk => ?_
    have hle := walk_le hwalk
    have hpre' : _ ≤ t.minSize := sum_minSize_le_of_prefix hpre
    omega
  rw [recordExtent, hfold]
  cases walk b t.fields 0 <;> rfl

/-! ### From one variable-length field to the next -/

/-- One more field: it ends a gap, or widens the last one. -/
def gapStep (g : List Nat × Nat) (f : FieldSpecifier) : List Nat × Nat :=
  if f.fieldLength = variableLength then (g.1 ++ [g.2], 0) else (g.1, g.2 + f.fieldLength.toNat)

/-- The fixed bytes in front of each variable-length field, and those after the last one. -/
def gaps (fs : List FieldSpecifier) : List Nat × Nat := fs.foldl gapStep ([], 0)

/-- Moving the cursor over gaps. -/
def walkGaps (b : Bytes) (g : List Nat × Nat) : Option Nat :=
  (g.1.foldlM (fun o gap => prefixEnd b (o + gap)) 0).map (· + g.2)

theorem gaps_concat (fs : List FieldSpecifier) (f : FieldSpecifier) :
    gaps (fs ++ [f]) = gapStep (gaps fs) f := List.foldl_concat ..

theorem walk_concat (b : Bytes) (fs : List FieldSpecifier) (f : FieldSpecifier) (o : Nat) :
    walk b (fs ++ [f]) o = (walk b fs o).bind fun o' => walkStep b o' f := by
  simp [walk, List.foldlM_append]

theorem walkGaps_gaps (b : Bytes) (fs : List FieldSpecifier) :
    walkGaps b (gaps fs) = walk b fs 0 := by
  induction fs using List.reverseRecOn with
  | nil => rfl
  | append_singleton fs f ih =>
    rw [gaps_concat, walk_concat, ← ih, gapStep]
    simp only [walkGaps, walkStep]
    by_cases hvar : f.fieldLength = variableLength
    · simp only [hvar, if_true, List.foldlM_append]
      cases List.foldlM (fun o gap => prefixEnd b (o + gap)) 0 (gaps fs).1 with
      | none => rfl
      | some o => simp
    · simp only [hvar, if_false]
      cases List.foldlM (fun o gap => prefixEnd b (o + gap)) 0 (gaps fs).1 with
      | none => rfl
      | some o => simp [Nat.add_assoc]

theorem gaps_sum (fs : List FieldSpecifier) :
    (gaps fs).1.length + (gaps fs).1.sum + (gaps fs).2 = (fs.map FieldSpecifier.minSize).sum := by
  induction fs using List.reverseRecOn with
  | nil => rfl
  | append_singleton fs f ih =>
    rw [gaps_concat, gapStep, List.map_append, List.sum_append, ← ih]
    by_cases hvar : f.fieldLength = variableLength
    · simp [hvar, FieldSpecifier.minSize]
      omega
    · simp [hvar, FieldSpecifier.minSize]
      omega

theorem foldlM_skipStep {tg : Target} {b : Bytes} (hb : b.length ≤ tg.isizeMax) {gs : List Nat}
    (hgs : ∀ g ∈ gs, g < 2 ^ 16) {o : Nat} (ho : o ≤ b.length + 65538) :
    (gs.map UInt16.ofNat).foldlM (skipStep tg b) o =
      .okOr .unexpectedEof (gs.foldlM (fun o gap => prefixEnd b (o + gap)) o) := by
  have hmax := tg.isizeMax_add_le
  induction gs generalizing o with
  | nil => rfl
  | cons g gs ih =>
    have hg : g < 2 ^ 16 := hgs g (by simp)
    have hword : (UInt16.ofNat g).toNat = g := UInt16.toNat_ofNat_of_lt hg
    rw [List.map_cons, List.foldlM_cons, List.foldlM_cons, skipStep, hword,
      usizeCheckedAdd_eq (by omega), Outcome.okOr_some, Outcome.ok_bind, varlenEnd_eq hb]
    cases hend : prefixEnd b (o + g) with
    | none => rfl
    | some o' =>
      have hbounds := prefixEnd_bounds hend
      exact ih (fun g hg => hgs g (by simp [hg])) (by omega)

theorem foldlM_prefixEnd_le {b : Bytes} {gs : List Nat} {o o' : Nat} (ho : o ≤ b.length + 65538)
    (h : gs.foldlM (fun o gap => prefixEnd b (o + gap)) o = some o') : o' ≤ b.length + 65538 := by
  induction gs generalizing o with
  | nil =>
    cases h
    exact ho
  | cons g gs ih =>
    rw [List.foldlM_cons] at h
    obtain ⟨o₁, hend, h⟩ := Option.bind_eq_some_iff.mp h
    have hbounds := prefixEnd_bounds hend
    exact ih (by omega) h

/-- `record_extent_inline` moves the cursor over the gaps in its table. -/
theorem recordExtentInline_eq {tg : Target} {b : Bytes} (hb : b.length ≤ tg.isizeMax)
    {skips : List UInt16} {count : UInt8} {trailing : UInt16} {gs : List Nat}
    (hcount : count.toNat ≤ skips.length) (hskips : skips.take count.toNat = gs.map UInt16.ofNat)
    (hgs : ∀ g ∈ gs, g < 2 ^ 16) :
    recordExtentInline tg b skips count trailing = endIn b (walkGaps b (gs, trailing.toNat)) := by
  have hmax := tg.isizeMax_add_le
  have htrailing := trailing.toNat_lt
  rw [recordExtentInline, sliceTo_eq hcount, Outcome.ok_bind, hskips,
    foldlM_skipStep hb hgs (Nat.zero_le _), walkGaps]
  cases hend : gs.foldlM (fun o gap => prefixEnd b (o + gap)) 0 with
  | none => rfl
  | some o =>
    have hbound := foldlM_prefixEnd_le (Nat.zero_le _) hend
    rw [Outcome.okOr_some, Outcome.ok_bind, usizeCheckedAdd_eq (by omega)]
    rfl

/-! ### Where the fields end -/

theorem walkStep_of_bytes {b r : Bytes} {o : Nat} {f : FieldSpecifier} {e : Encoded} (he : e.Fits f)
    (hb : b.drop o = e.bytes ++ r) : walkStep b o f = some (o + e.bytes.length) := by
  have hget : ∀ i, b[o + i]? = (e.bytes ++ r)[i]? := by
    intro i
    rw [← hb, List.getElem?_drop]
  have hlen : b.length - o = e.bytes.length + r.length := by
    rw [← List.length_drop, hb, List.length_append]
  cases e with
  | fixed data =>
    obtain ⟨hvar, hdata⟩ := he
    rw [walkStep, if_neg hvar, Encoded.bytes, hdata]
  | short data =>
    obtain ⟨hvar, hdata⟩ := he
    have hword : (UInt8.ofNat data.length).toNat = data.length :=
      UInt8.toNat_ofNat_of_lt (by simp only [UInt8.size]; omega)
    have hfirst : b[o]? = some (UInt8.ofNat data.length) := hget 0
    have hshort : UInt8.ofNat data.length < 255 := by
      rw [UInt8.lt_iff_toNat_lt, hword]
      exact hdata
    simp only [walkStep, if_pos hvar, prefixEnd, hfirst, if_pos hshort, hword, Encoded.bytes,
      List.length_cons, Option.some.injEq]
    omega
  | long data =>
    obtain ⟨hvar, hdata⟩ := he
    have hword : (UInt16.ofNat data.length).toNat = data.length :=
      UInt16.toNat_ofNat_of_lt (by simp only [UInt16.size]; omega)
    have hfirst : b[o]? = some 255 := hget 0
    have hat : u16At b (o + 1) = UInt16.ofNat data.length := by
      rw [← u16At_drop, hb]
      simp [Encoded.bytes, u16At]
    have hlong : o + 3 ≤ b.length := by
      simp only [Encoded.bytes, List.length_cons, List.length_append, length_u16ToBe] at hlen
      omega
    simp only [walkStep, if_pos hvar, prefixEnd, hfirst, if_neg (by decide : ¬ (255 : UInt8) < 255),
      if_pos hlong, hat, hword, Encoded.bytes, List.length_cons, List.length_append, length_u16ToBe,
      Option.some.injEq]
    omega

/-- The cursor is stuck, or past the end of the buffer. -/
def Beyond (b : Bytes) (x : Option Nat) : Prop := ∀ o, x = some o → b.length < o

theorem walkStep_beyond {b : Bytes} {o : Nat} (ho : b.length < o) (f : FieldSpecifier) :
    Beyond b (walkStep b o f) := by
  intro o' h
  rw [walkStep] at h
  split_ifs at h with hvar
  · have := prefixEnd_bounds h
    omega
  · cases h
    omega

theorem walk_beyond {b : Bytes} (fs : List FieldSpecifier) {x : Option Nat} (hx : Beyond b x) :
    Beyond b (x.bind (walk b fs)) := by
  induction fs generalizing x with
  | nil =>
    cases x with
    | none => exact hx
    | some o => exact hx
  | cons f fs ih =>
    cases x with
    | none => exact hx
    | some o => exact ih (walkStep_beyond (hx o rfl) f)

theorem walkStep_of_err {b : Bytes} {o : Nat} {f : FieldSpecifier} {e : Error} (ho : o ≤ b.length)
    (h : f.cutEncoded (b.drop o) = .err e) : Beyond b (walkStep b o f) := by
  have hlen : (b.drop o).length = b.length - o := List.length_drop
  have hget : ∀ i, b[o + i]? = (b.drop o)[i]? := fun i => List.getElem?_drop.symm
  have hat : ∀ i, u16At b (o + i) = u16At (b.drop o) i := fun i => (u16At_drop b o i).symm
  generalize b.drop o = rest at h hlen hget hat
  intro o' hwalk
  rw [FieldSpecifier.cutEncoded] at h
  rw [walkStep] at hwalk
  split_ifs at h hwalk with hvar
  · rw [prefixEnd, ← Nat.add_zero o, hget 0] at hwalk
    cases rest with
    | nil => simp at hwalk
    | cons first rest =>
      rw [cutVariable] at h
      simp only [List.getElem?_cons_zero, Nat.add_zero] at hwalk
      simp only [List.length_cons] at hlen
      split_ifs at h hwalk with hshort hlong
      · cases hwalk
        by_cases hfits : first.toNat ≤ rest.length
        · simp [split_eq hfits, Outcome.mapErr] at h
        · omega
      · cases hwalk
        have h2 : 2 ≤ rest.length := by omega
        have hword : u16FromBe (rest.take 2) = u16At b (o + 1) := by rw [hat 1]; rfl
        rw [firstChunk_eq h2, Outcome.okOr_some, Outcome.ok_bind, hword] at h
        by_cases hfits : (u16At b (o + 1)).toNat ≤ (rest.drop 2).length
        · simp [split_eq hfits, Outcome.mapErr] at h
        · rw [List.length_drop] at hfits
          omega
  · cases hwalk
    by_cases hfits : f.fieldLength.toNat ≤ rest.length
    · simp [split_eq hfits] at h
    · omega

/-- The cursor ends where the fields end. -/
theorem walk_of_cut {b r : Bytes} {fs : List FieldSpecifier} {es : List Encoded}
    (hes : List.Forall₂ Encoded.Fits fs es) {o : Nat} (hb : b.drop o = es.flatMap Encoded.bytes ++ r) :
    walk b fs o = some (o + (es.flatMap Encoded.bytes).length) := by
  induction hes generalizing o with
  | nil => rfl
  | @cons f e fs es he _ ih =>
    rw [List.flatMap_cons, List.append_assoc] at hb
    have hrest : b.drop (o + e.bytes.length) = es.flatMap Encoded.bytes ++ r := by
      rw [← List.drop_drop, hb, List.drop_left]
    have hstep := walkStep_of_bytes he hb
    rw [walk, List.foldlM_cons, hstep, List.flatMap_cons, List.length_append, ← Nat.add_assoc]
    exact ih hrest

theorem walk_of_err {b : Bytes} {fs : List FieldSpecifier} {o : Nat} {e : Error} (ho : o ≤ b.length)
    (h : decodeAll FieldSpecifier.cutEncoded fs (b.drop o) = .err e) : Beyond b (walk b fs o) := by
  induction fs generalizing o with
  | nil => simp [decodeAll] at h
  | cons f fs ih =>
    rw [walk, List.foldlM_cons]
    rcases Outcome.bind_eq_err.mp h with hcut | ⟨⟨e', r⟩, hcut, h⟩
    · exact walk_beyond fs (walkStep_of_err ho hcut)
    · rcases Outcome.bind_eq_err.mp h with hrest | ⟨x, _, h⟩
      · obtain ⟨hfits, hb⟩ := f.cutEncoded_isCode.sound hcut
        have hdrop : b.drop (o + e'.bytes.length) = r := by rw [← List.drop_drop, hb, List.drop_left]
        have hlen : b.length - o = e'.bytes.length + r.length := by
          rw [← List.length_drop, hb, List.length_append]
        rw [walkStep_of_bytes hfits hb]
        exact ih (by omega) (by rwa [hdrop])
      · simp at h

theorem endIn_walk_of_ok {t : TemplateRef} {b r : Bytes} {record : DataRecord}
    (h : t.cutRecord b = .ok (record, r)) : endIn b (walk b t.fields 0) = .ok record.raw.length := by
  obtain ⟨⟨-, es, henc, hraw⟩, hb⟩ := TemplateRef.cutRecord_ok_iff.mp h
  have hwalk := walk_of_cut henc (b := b) (o := 0) (r := r) (by rw [List.drop_zero, hb, hraw])
  have hlen := congrArg List.length hb
  rw [List.length_append] at hlen
  rw [hwalk, ← hraw, Nat.zero_add, endIn, if_neg (by omega)]

theorem endIn_walk_of_err {t : TemplateRef} {b : Bytes} {e : Error} (h : t.cutRecord b = .err e) :
    e = .unexpectedEof ∧ endIn b (walk b t.fields 0) = .err .unexpectedEof := by
  rcases Outcome.bind_eq_err.mp h with hcut | ⟨x, _, h⟩
  · cases hdec : decodeAll FieldSpecifier.cutEncoded t.fields b with
    | err e' =>
      rw [hdec] at hcut
      obtain rfl : Error.unexpectedEof = e := by simpa [Outcome.mapErr] using hcut
      have hbeyond := walk_of_err (b := b) (o := 0) (Nat.zero_le _) hdec
      refine ⟨rfl, ?_⟩
      cases hwalk : walk b t.fields 0 with
      | none => rfl
      | some o => exact if_pos (hbeyond o hwalk)
    | ok x => simp [hdec, Outcome.mapErr] at hcut
    | panic => simp [hdec, Outcome.mapErr] at hcut
  · simp at h

/-! ### The table of gaps -/

/-- What the loop of `DataRecordIter::new` knows after the fields `fs`. -/
structure LayoutScan.Inv (fs : List FieldSpecifier) (s : LayoutScan) : Prop where
  min : s.minRecordSize = (fs.map FieldSpecifier.minSize).sum
  last : s.lastEnd ≤ s.minRecordSize
  gap : s.minRecordSize - s.lastEnd = (gaps fs).2
  skips : s.skips.length = maxInlineVarlens
  count : s.count.toNat ≤ maxInlineVarlens
  table : s.overflow = false → s.count.toNat = (gaps fs).1.length ∧
    s.skips.take s.count.toNat = (gaps fs).1.map UInt16.ofNat ∧ ∀ g ∈ (gaps fs).1, g < 2 ^ 16
  varying : s.count ≠ 0 → (gaps fs).1 ≠ []
  big : s.count = 0 → s.overflow = true → 65535 < s.minRecordSize

theorem LayoutScan.start_inv : LayoutScan.start.Inv [] where
  min := rfl
  last := Nat.le_refl 0
  gap := rfl
  skips := rfl
  count := Nat.zero_le _
  table _ := ⟨rfl, rfl, by simp [gaps]⟩
  varying h := absurd rfl h
  big _ h := by simp [start] at h

section step

variable {fs : List FieldSpecifier} {f : FieldSpecifier} {s : LayoutScan}

theorem gaps_concat_varlen (hvar : f.fieldLength = variableLength) :
    gaps (fs ++ [f]) = ((gaps fs).1 ++ [(gaps fs).2], 0) := by
  rw [gaps_concat, gapStep, if_pos hvar]

theorem gaps_concat_fixed (hvar : f.fieldLength ≠ variableLength) :
    gaps (fs ++ [f]) = ((gaps fs).1, (gaps fs).2 + f.fieldLength.toNat) := by
  rw [gaps_concat, gapStep, if_neg hvar]

theorem gaps_eq_nil_iff {fs : List FieldSpecifier} :
    (gaps fs).1 = [] ↔ ∀ f ∈ fs, f.fieldLength ≠ variableLength := by
  induction fs using List.reverseRecOn with
  | nil => simp [gaps]
  | append_singleton fs f ih =>
    by_cases hvar : f.fieldLength = variableLength
    · simp [gaps_concat_varlen hvar, hvar]
    · simp [gaps_concat_fixed hvar, ih, hvar, or_imp, forall_and]

theorem LayoutScan.Inv.min_concat (hs : s.Inv fs) :
    s.minRecordSize + f.minSize = ((fs ++ [f]).map FieldSpecifier.minSize).sum := by
  simp [hs.min]

theorem LayoutScan.Inv.fixed (hs : s.Inv fs) (hvar : f.fieldLength ≠ variableLength) :
    Inv (fs ++ [f]) { s with minRecordSize := s.minRecordSize + f.minSize } := by
  have hsize : f.minSize = f.fieldLength.toNat := if_neg hvar
  have hgaps : gaps (fs ++ [f]) = _ := gaps_concat_fixed hvar
  have hlast := hs.last
  have hgap := hs.gap
  constructor
  case min => exact hs.min_concat
  case last => exact Nat.le_trans hlast (Nat.le_add_right _ _)
  case gap =>
    rw [hgaps, hsize]
    simp only
    omega
  case skips => exact hs.skips
  case count => exact hs.count
  case table =>
    rw [hgaps]
    exact hs.table
  case varying =>
    rw [hgaps]
    exact hs.varying
  case big =>
    intro hzero hover
    exact Nat.lt_of_lt_of_le (hs.big hzero hover) (Nat.le_add_right _ _)

theorem LayoutScan.Inv.recorded (hs : s.Inv fs) (hvar : f.fieldLength = variableLength)
    (hidx : s.count.toNat < maxInlineVarlens) (hfits : s.minRecordSize - s.lastEnd < 2 ^ 16) :
    Inv (fs ++ [f]) { s with
      skips := s.skips.set s.count.toNat (UInt16.ofNat (s.minRecordSize - s.lastEnd))
      count := s.count + 1
      minRecordSize := s.minRecordSize + 1
      lastEnd := s.minRecordSize + 1 } := by
  have hsize : f.minSize = 1 := if_pos hvar
  have hgaps : gaps (fs ++ [f]) = _ := gaps_concat_varlen hvar
  have hidx4 : s.count.toNat < 4 := hidx
  have hincr : (s.count + 1).toNat = s.count.toNat + 1 := by
    rw [UInt8.toNat_add]
    simp
    omega
  have hgap := hs.gap
  constructor
  case min =>
    rw [← hs.min_concat, hsize]
  case last => exact Nat.le_refl _
  case gap =>
    rw [hgaps]
    exact Nat.sub_self _
  case skips => simp [hs.skips]
  case count =>
    rw [hincr]
    exact hidx
  case table =>
    intro hover
    obtain ⟨hlen, htake, hall⟩ := hs.table hover
    rw [hgaps, hincr]
    refine ⟨by simp [hlen], ?_, ?_⟩
    · have hlt : s.count.toNat < s.skips.length := by
        rw [hs.skips]
        exact hidx
      rw [List.take_add_one, List.take_set_of_le (Nat.le_refl _), htake,
        List.getElem?_set_self hlt, hgap]
      simp
    · simp only [List.mem_append, List.mem_singleton]
      rintro g (hg | rfl)
      · exact hall g hg
      · rwa [← hgap]
  case varying =>
    intro _
    simp [hgaps]
  case big =>
    intro hzero
    have := congrArg UInt8.toNat hzero
    rw [hincr] at this
    simp at this

theorem LayoutScan.Inv.overflowed (hs : s.Inv fs) (hvar : f.fieldLength = variableLength)
    (hbig : s.count = 0 → 65535 ≤ s.minRecordSize) :
    Inv (fs ++ [f]) { s with
      overflow := true
      minRecordSize := s.minRecordSize + 1
      lastEnd := s.minRecordSize + 1 } := by
  have hsize : f.minSize = 1 := if_pos hvar
  have hgaps : gaps (fs ++ [f]) = _ := gaps_concat_varlen hvar
  constructor
  case min =>
    rw [← hs.min_concat, hsize]
  case last => exact Nat.le_refl _
  case gap =>
    rw [hgaps]
    exact Nat.sub_self _
  case skips => exact hs.skips
  case count => exact hs.count
  case table => simp
  case varying =>
    intro _
    simp [hgaps]
  case big =>
    intro hzero _
    exact Nat.lt_succ_of_le (hbig hzero)

/-- The ways the loop body of `DataRecordIter::new` can go. -/
inductive LayoutScan.Step (f : FieldSpecifier) (s : LayoutScan) : LayoutScan → Prop
  | fixed : f.fieldLength ≠ variableLength →
      Step f s { s with minRecordSize := s.minRecordSize + f.minSize }
  | recorded : f.fieldLength = variableLength → s.count.toNat < maxInlineVarlens →
      s.minRecordSize - s.lastEnd < 2 ^ 16 →
      Step f s { s with
        skips := s.skips.set s.count.toNat (UInt16.ofNat (s.minRecordSize - s.lastEnd))
        count := s.count + 1
        minRecordSize := s.minRecordSize + 1
        lastEnd := s.minRecordSize + 1 }
  | overflowed : f.fieldLength = variableLength →
      (s.count = 0 → 2 ^ 16 ≤ s.minRecordSize - s.lastEnd) →
      Step f s { s with
        overflow := true
        minRecordSize := s.minRecordSize + 1
        lastEnd := s.minRecordSize + 1 }

theorem LayoutScan.step_cases {tg : Target} {s' : LayoutScan} (h : step tg s f = .ok s') :
    s.Step f s' ∧ s'.minRecordSize ≤ tg.usizeMax := by
  have hadd : ∀ {a b c : Nat}, (usizeAdd tg a b : Outcome Empty Nat) = .ok c →
      c = a + b ∧ c ≤ tg.usizeMax := by
    intro a b c h
    rw [usizeAdd] at h
    split_ifs at h with hle
    cases h
    exact ⟨rfl, hle⟩
  rw [step] at h
  by_cases hvar : f.fieldLength = variableLength
  · simp only [if_pos hvar, Outcome.pure_eq, Outcome.ok_bind] at h
    split_ifs at h with hidx
    · obtain ⟨skip, hskip, h⟩ := Outcome.bind_eq_ok.mp h
      rw [uintSub] at hskip
      split_ifs at hskip with hlast
      cases hskip
      split_ifs at h with hfits
      · obtain ⟨skips, hskips, h⟩ := Outcome.bind_eq_ok.mp h
        obtain ⟨count, hcount, h⟩ := Outcome.bind_eq_ok.mp h
        obtain ⟨m, hm, h⟩ := Outcome.bind_eq_ok.mp h
        rw [setIndex] at hskips
        rw [u8Incr] at hcount
        split_ifs at hskips
        split_ifs at hcount
        cases hskips
        cases hcount
        cases h
        obtain ⟨rfl, hle⟩ := hadd hm
        exact ⟨.recorded hvar hidx hfits, hle⟩
      · obtain ⟨m, hm, h⟩ := Outcome.bind_eq_ok.mp h
        cases h
        obtain ⟨rfl, hle⟩ := hadd hm
        exact ⟨.overflowed hvar fun _ => Nat.le_of_not_lt hfits, hle⟩
    · obtain ⟨m, hm, h⟩ := Outcome.bind_eq_ok.mp h
      cases h
      obtain ⟨rfl, hle⟩ := hadd hm
      exact ⟨.overflowed hvar fun hzero => absurd (by simp [hzero, maxInlineVarlens]) hidx, hle⟩
  · rw [if_neg hvar] at h
    obtain ⟨m, hm, h⟩ := Outcome.bind_eq_ok.mp h
    cases h
    have hsize : f.minSize = f.fieldLength.toNat := if_neg hvar
    obtain ⟨rfl, hle⟩ := hadd hm
    rw [← hsize] at hle ⊢
    exact ⟨.fixed hvar, hle⟩

theorem LayoutScan.Step.inv {s' : LayoutScan} (h : s.Step f s') (hs : s.Inv fs) :
    s'.Inv (fs ++ [f]) := by
  cases h with
  | fixed hvar => exact hs.fixed hvar
  | recorded hvar hidx hfits => exact hs.recorded hvar hidx hfits
  | overflowed hvar hbig =>
    refine hs.overflowed hvar fun hzero => ?_
    have := hbig hzero
    omega

theorem LayoutScan.step_inv (tg : Target) (hs : s.Inv fs)
    (hsize : s.minRecordSize + f.minSize ≤ tg.usizeMax) :
    ∃ s', step tg s f = .ok s' ∧ s'.Inv (fs ++ [f]) := by
  have hreturns : ∃ s', step tg s f = .ok s' := by
    rw [FieldSpecifier.minSize] at hsize
    rw [step]
    by_cases hvar : f.fieldLength = variableLength
    · rw [if_pos hvar] at hsize
      rw [if_pos hvar]
      by_cases hidx : s.count.toNat < maxInlineVarlens
      · have hidx' : s.count.toNat < s.skips.length := by
          rw [hs.skips]
          exact hidx
        have hidx4 : s.count.toNat < 4 := hidx
        simp only [if_pos hidx, uintSub_eq hs.last, Outcome.ok_bind]
        by_cases hfits : s.minRecordSize - s.lastEnd < 2 ^ 16
        · rw [if_pos hfits, setIndex_eq hidx', Outcome.ok_bind, u8Incr, if_pos (by omega)]
          simp only [Outcome.ok_bind, Outcome.pure_eq, usizeAdd_eq hsize]
          exact ⟨_, rfl⟩
        · rw [if_neg hfits]
          simp only [Outcome.ok_bind, Outcome.pure_eq, usizeAdd_eq hsize]
          exact ⟨_, rfl⟩
      · simp only [if_neg hidx, Outcome.ok_bind, Outcome.pure_eq, usizeAdd_eq hsize]
        exact ⟨_, rfl⟩
    · rw [if_neg hvar] at hsize
      simp only [if_neg hvar, usizeAdd_eq hsize, Outcome.ok_bind, Outcome.pure_eq]
      exact ⟨_, rfl⟩
  obtain ⟨s', hstep⟩ := hreturns
  exact ⟨s', hstep, (step_cases hstep).1.inv hs⟩

end step

theorem LayoutScan.run_inv (tg : Target) (fs' : List FieldSpecifier) {fs : List FieldSpecifier}
    {s : LayoutScan}
    (hs : s.Inv fs) (hsize : s.minRecordSize + (fs'.map FieldSpecifier.minSize).sum ≤ tg.usizeMax) :
    ∃ s', fs'.foldlM (step tg) s = .ok s' ∧ s'.Inv (fs ++ fs') := by
  induction fs' generalizing fs s with
  | nil => exact ⟨s, rfl, by rwa [List.append_nil]⟩
  | cons f fs' ih =>
    rw [List.map_cons, List.sum_cons] at hsize
    obtain ⟨s₁, hstep, hs₁⟩ := step_inv tg hs (f := f) (by omega)
    have hmin : s₁.minRecordSize = s.minRecordSize + f.minSize := by
      rw [hs₁.min, hs.min]
      simp
    obtain ⟨s', hrun, hs'⟩ := ih hs₁ (by omega)
    refine ⟨s', ?_, by simpa using hs'⟩
    rw [List.foldlM_cons, hstep]
    exact hrun

/-- How a layout goes with the fields of a template. -/
def VarlenLayout.Suits (t : TemplateRef) : VarlenLayout → Prop
  | allFixed => (gaps t.fields).1 = [] ∨ 65535 < t.minSize
  | inline skips count trailing => (gaps t.fields).1 ≠ [] ∧ count.toNat ≤ skips.length ∧
      skips.take count.toNat = (gaps t.fields).1.map UInt16.ofNat ∧
      (∀ g ∈ (gaps t.fields).1, g < 2 ^ 16) ∧ trailing.toNat = (gaps t.fields).2
  | fallback => (gaps t.fields).1 ≠ []

theorem LayoutScan.layout_suits {t : TemplateRef} {s : LayoutScan} (hs : s.Inv t.fields) :
    ∃ layout, s.layout = .ok layout ∧ layout.Suits t := by
  rw [layout]
  by_cases hzero : s.count = 0
  · refine ⟨.allFixed, if_pos hzero, ?_⟩
    cases hover : s.overflow with
    | true => exact .inr (Nat.lt_of_lt_of_eq (hs.big hzero hover) hs.min)
    | false =>
      obtain ⟨hlen, -, -⟩ := hs.table hover
      rw [hzero] at hlen
      exact .inl (List.length_eq_zero_iff.mp hlen.symm)
  · have hvarying := hs.varying hzero
    rw [if_neg hzero]
    cases hover : s.overflow with
    | true => exact ⟨.fallback, rfl, hvarying⟩
    | false =>
      obtain ⟨-, htake, hall⟩ := hs.table hover
      rw [uintSub_eq hs.last, Outcome.ok_bind]
      by_cases hfits : s.minRecordSize - s.lastEnd < 2 ^ 16
      · refine ⟨_, if_pos hfits, hvarying, ?_, htake, hall, ?_⟩
        · rw [hs.skips]
          exact hs.count
        · rw [← hs.gap]
          exact UInt16.toNat_ofNat_of_lt hfits
      · exact ⟨.fallback, if_neg hfits, hvarying⟩

theorem LayoutScan.step_min {tg : Target} {s s' : LayoutScan} {f : FieldSpecifier}
    (h : step tg s f = .ok s') :
    s'.minRecordSize = s.minRecordSize + f.minSize ∧ s'.minRecordSize ≤ tg.usizeMax := by
  obtain ⟨hstep, hle⟩ := step_cases h
  refine ⟨?_, hle⟩
  cases hstep with
  | fixed => rfl
  | recorded hvar => rw [FieldSpecifier.minSize, if_pos hvar]
  | overflowed hvar => rw [FieldSpecifier.minSize, if_pos hvar]

theorem LayoutScan.run_min {tg : Target} {fs : List FieldSpecifier} {s s' : LayoutScan}
    (hs : s.minRecordSize ≤ tg.usizeMax) (h : fs.foldlM (step tg) s = .ok s') :
    s'.minRecordSize = s.minRecordSize + (fs.map FieldSpecifier.minSize).sum ∧
      s'.minRecordSize ≤ tg.usizeMax := by
  induction fs generalizing s with
  | nil =>
    cases h
    exact ⟨rfl, hs⟩
  | cons f fs ih =>
    rw [List.foldlM_cons] at h
    obtain ⟨s₁, hstep, h⟩ := Outcome.bind_eq_ok.mp h
    obtain ⟨hmin, hle⟩ := step_min hstep
    obtain ⟨hmin', hle'⟩ := ih hle h
    refine ⟨?_, hle'⟩
    rw [hmin', hmin, List.map_cons, List.sum_cons, Nat.add_assoc]

/-- What holds of a record iterator from its making on. -/
structure DataRecordIter.Inv (t : TemplateRef) (it : DataRecordIter) : Prop where
  template : it.template = t
  min : it.minRecordSize = t.minSize
  layout : it.layout.Suits t

theorem DataRecordIter.new_inv (tg : Target) {t : TemplateRef} (hsize : t.minSize ≤ tg.usizeMax)
    (buf : Bytes) : ∃ it, new tg buf t = .ok it ∧ it.buf = buf ∧ it.Inv t := by
  obtain ⟨s, hrun, hs⟩ := LayoutScan.run_inv tg t.fields LayoutScan.start_inv
    (by rw [LayoutScan.start_inv.min]; simpa [TemplateRef.minSize] using hsize)
  rw [List.nil_append] at hs
  obtain ⟨layout, hlayout, hsuits⟩ := LayoutScan.layout_suits hs
  refine ⟨⟨buf, t, s.minRecordSize, layout⟩, ?_, rfl, rfl, hs.min, hsuits⟩
  rw [new, hrun, Outcome.ok_bind, hlayout]
  rfl

theorem DataRecordIter.inv_of_new {tg : Target} {t : TemplateRef} {buf : Bytes} {it : DataRecordIter}
    (h : new tg buf t = .ok it) : it.buf = buf ∧ it.Inv t := by
  obtain ⟨s, hrun, -⟩ := Outcome.bind_eq_ok.mp h
  obtain ⟨hmin, hle⟩ := LayoutScan.run_min (Nat.zero_le _) hrun
  have hsize : t.minSize ≤ tg.usizeMax := by
    rw [hmin] at hle
    exact Nat.le_trans (Nat.le_add_left _ _) hle
  obtain ⟨it', hnew, hbuf, hinv⟩ := new_inv tg hsize buf
  rw [h] at hnew
  cases hnew
  exact ⟨hbuf, hinv⟩

theorem TemplateRef.minSize_lt {t : TemplateRef} (h : t.fields.length ≤ 65535) : t.minSize < 2 ^ 32 := by
  have hfield : ∀ f : FieldSpecifier, f.minSize ≤ 65534 := by
    intro f
    have hword := f.fieldLength.toNat_lt
    rw [FieldSpecifier.minSize]
    split_ifs with hvar
    · omega
    · have hne : f.fieldLength.toNat ≠ 65535 := fun h => hvar (UInt16.toNat_inj.mp h)
      omega
  have hsum : t.minSize ≤ t.fields.length * 65534 := by
    have hle := List.sum_le_card_nsmul (t.fields.map FieldSpecifier.minSize) 65534
      (by simpa using fun f _ => hfield f)
    simpa [TemplateRef.minSize] using hle
  have hmul : t.fields.length * 65534 ≤ 65535 * 65534 := Nat.mul_le_mul_right _ h
  omega

theorem TemplateRef.minSize_le_usizeMax {t : TemplateRef} (h : t.fields.length ≤ 65535) (tg : Target) :
    t.minSize ≤ tg.usizeMax := by
  have hlt := minSize_lt h
  have hmax := tg.usizeMax_ge
  omega

/-! ### Taking one record -/

namespace DataRecordIter

variable {t : TemplateRef} {it : DataRecordIter}

/-- Every layout finds the same end, in a buffer that a set can have. -/
theorem extent_eq (tg : Target) (hinv : it.Inv t) (hbuf : it.buf.length ≤ 65531)
    (hmin : t.minSize ≤ it.buf.length) :
    it.extent tg = endIn it.buf (walk it.buf t.fields 0) := by
  have hmax := tg.isizeMax_ge
  have hmax' := tg.usizeMax_ge
  have hsuits := hinv.layout
  have hsum := gaps_sum t.fields
  rw [extent]
  cases hlayout : it.layout with
  | allFixed =>
    rw [hlayout] at hsuits
    rcases hsuits with hnil | hbig
    · rw [hnil, List.length_nil, List.sum_nil] at hsum
      have hend : (gaps t.fields).2 = t.minSize := by
        rw [TemplateRef.minSize]
        omega
      rw [← walkGaps_gaps, walkGaps, hnil]
      simp only [List.foldlM_nil, Option.pure_def, Option.map_some, Nat.zero_add, hend, endIn]
      rw [if_neg (by omega), hinv.min]
    · omega
  | inline skips count trailing =>
    rw [hlayout] at hsuits
    obtain ⟨-, hcount, hskips, hall, htrailing⟩ := hsuits
    simp only
    rw [recordExtentInline_eq (by omega) hcount hskips hall, htrailing, ← walkGaps_gaps]
  | fallback =>
    simp only
    rw [hinv.template]
    exact recordExtent_eq (by omega) (by omega)

/-- `DataRecordIter` reads the records of its template. -/
theorem readsFrames (tg : Target) (t : TemplateRef) (hmin : 0 < t.minSize) :
    ReadsFrames t.padding t.cutRecord (next tg)
      (fun it b => it.buf = b ∧ it.Inv t ∧ b.length ≤ 65531)
      (fun it => it.Inv t ∧ it.buf = []) where
  onDone := by
    rintro ⟨_, template, minRecordSize, layout⟩ ⟨hinv, rfl⟩
    obtain rfl : minRecordSize = t.minSize := hinv.min
    exact ⟨⟨[], template, t.minSize, layout⟩, by simp [next, hmin], hinv, rfl⟩
  onStop := by
    rintro ⟨b, template, minRecordSize, layout⟩ _ ⟨rfl, hinv, hbuf⟩ hpad
    obtain rfl : minRecordSize = t.minSize := hinv.min
    have hshort : b.length < t.minSize := hpad
    exact ⟨⟨[], template, t.minSize, layout⟩, by simp [next, hshort],
      ⟨hinv.template, rfl, hinv.layout⟩, rfl⟩
  onOk := by
    rintro ⟨b, template, minRecordSize, layout⟩ _ record r ⟨rfl, hinv, hbuf⟩ hpad hcut
    obtain rfl : minRecordSize = t.minSize := hinv.min
    obtain rfl : template = t := hinv.template
    have hlong : ¬ b.length < template.minSize := hpad
    have hext := extent_eq tg hinv hbuf (Nat.le_of_not_lt hlong)
    obtain ⟨⟨htemplate, -⟩, hb⟩ := TemplateRef.cutRecord_ok_iff.mp hcut
    simp only at hext hbuf hb
    rw [endIn_walk_of_ok hcut] at hext
    obtain ⟨raw, template'⟩ := record
    obtain rfl : template' = template := htemplate
    refine ⟨⟨r, template', template'.minSize, layout⟩, ?_, rfl, ⟨rfl, rfl, hinv.layout⟩, ?_⟩
    · simp only [next, if_neg hlong, hext, Outcome.attempt_ok, Outcome.ok_bind]
      rw [splitAt_eq (by rw [hb]; simp), hb]
      simp
    · rw [hb, List.length_append] at hbuf
      omega
  onErr := by
    rintro ⟨b, template, minRecordSize, layout⟩ _ e ⟨rfl, hinv, hbuf⟩ hpad hcut
    obtain rfl : minRecordSize = t.minSize := hinv.min
    have hlong : ¬ b.length < t.minSize := hpad
    have hext := extent_eq tg hinv hbuf (Nat.le_of_not_lt hlong)
    obtain ⟨rfl, hend⟩ := endIn_walk_of_err hcut
    simp only at hext
    rw [hend] at hext
    exact ⟨⟨[], template, t.minSize, layout⟩, by simp [next, hlong, hext],
      ⟨hinv.template, rfl, hinv.layout⟩, rfl⟩

end DataRecordIter

end IpfixParser

import IpfixParser.Proof.Framing

/-!
# The scratch buffer of a template set

The template decoders see of their scratch buffer only its size, and compare that with the field count
of a header after all other checks of it. So two runs of `TemplateSetIter` over the same set part at
the first template that has room in only one of the buffers, and not before.
-/

namespace IpfixParser

open Lib

namespace TemplateSetKind

variable {kind : TemplateSetKind} {n m : Nat} {b : Bytes}

/-- A buffer that starts with a good header, of a template with more than `n` fields. -/
structure TooBig (kind : TemplateSetKind) (n : Nat) (b : Bytes) : Prop where
  header : kind.minHeader ≤ b.length
  pos : 1 ≤ (headerOf b kind).fieldCount
  scope : kind.ScopeOk (headerOf b kind).scopeFieldCount (headerOf b kind).fieldCount
  fields : n < (headerOf b kind).fieldCount

theorem TooBig.le (h : kind.TooBig n b) : n < 65535 :=
  Nat.lt_of_lt_of_le h.fields (headerOf_u16 b kind)

theorem decode_of_tooBig (h : kind.TooBig n b) : kind.decode n b = .err .fieldBufferTooSmall := by
  have hgood : ¬ ((headerOf b kind).fieldCount = 0 ∨
      ¬ kind.ScopeOk (headerOf b kind).scopeFieldCount (headerOf b kind).fieldCount) := by
    rintro (hzero | hscope)
    · exact Nat.ne_of_gt h.pos hzero
    · exact hscope h.scope
  have hhd : kind.decodeHeader n b = .err .fieldBufferTooSmall := by
    rw [decodeHeader_eq h.header]
    exact (if_neg hgood).trans (if_pos h.fields)
  rw [decode, hhd]
  rfl

theorem decode_congr (h : ¬ kind.TooBig n b) (hnm : n ≤ m) : kind.decode n b = kind.decode m b := by
  have hhd : kind.decodeHeader n b = kind.decodeHeader m b := by
    by_cases hlen : b.length < kind.minHeader
    · rw [decodeHeader_of_short hlen, decodeHeader_of_short hlen]
    have hlen := Nat.le_of_not_lt hlen
    rw [decodeHeader_eq hlen, decodeHeader_eq hlen]
    simp only
    split_ifs with hbad hn hm hm
    · rfl
    · rfl
    · push Not at hbad
      exact absurd ⟨hlen, Nat.pos_of_ne_zero hbad.1, hbad.2, hn⟩ h
    · omega
    · rfl
  rw [decode, hhd]
  rfl

theorem tooBig_of_decode (h : kind.decode n b = .err .fieldBufferTooSmall) : kind.TooBig n b := by
  rcases Outcome.bind_eq_err.mp h with hhd | ⟨x, -, h⟩
  · by_cases hlen : b.length < kind.minHeader
    · rw [decodeHeader_of_short hlen] at hhd
      cases hhd
    have hlen := Nat.le_of_not_lt hlen
    rw [decodeHeader_eq hlen] at hhd
    simp only at hhd
    split_ifs at hhd with hbad hn
    · cases hhd
    · push Not at hbad
      exact ⟨hlen, Nat.pos_of_ne_zero hbad.1, hbad.2, hn⟩
  · rcases Outcome.bind_eq_err.mp h with hfields | ⟨y, -, h⟩
    · obtain ⟨-, b', herr⟩ := exists_of_decodeAll_eq_err hfields
      rw [FieldSpecifier.decode_eq] at herr
      split_ifs at herr <;> cases herr
    · cases h

theorem Valid.mono {r : TemplateRecord} (h : kind.Valid n r) (hnm : n ≤ m) : kind.Valid m r :=
  ⟨⟨h.header.pos, Nat.le_trans h.header.fits hnm, h.header.u16, h.header.scope⟩, h.fields⟩

end TemplateSetKind

/-- Of two runs over the same bytes, the one with the smaller buffer ends early at the first template
that is too big for it, and is the other run up to there. What the buffers hold does not matter. -/
theorem scratch_only_limits (kind : TemplateSetKind) (buf : Bytes) (small large : List FieldSpecifier)
    (hle : small.length ≤ large.length) :
    ∃ items items' : List (Result TemplateRecord),
      Yields TemplateSetIter.next (.new buf small kind) items ∧
      Yields TemplateSetIter.next (.new buf large kind) items' ∧
      (∀ (records : List TemplateRecord) rest, (∀ r ∈ records, kind.Valid small.length r) →
        buf = records.flatMap kind.encode ++ rest → kind.TooBig small.length rest →
          items = records.map .ok ++ [.error .fieldBufferTooSmall] ∧ records.map .ok <+: items' ∧
          (¬ kind.TooBig large.length rest →
            items'[records.length]? ≠ some (.error .fieldBufferTooSmall))) ∧
      ((¬ ∃ (records : List TemplateRecord) (rest : Bytes), (∀ r ∈ records, kind.Valid small.length r) ∧
        buf = records.flatMap kind.encode ++ rest ∧ kind.TooBig small.length rest) →
          items = items') ∧
      (small.length = large.length → items = items') ∧
      (65535 ≤ large.length → .error .fieldBufferTooSmall ∉ items') := by
  have hframing := kind.framing small.length
  have hframing' := kind.framing large.length
  obtain ⟨items, hfr⟩ := hframing.total buf
  obtain ⟨items', hfr'⟩ := hframing'.total buf
  refine ⟨items, items', (TemplateSetIter.readsFrames kind _).yields ⟨rfl, rfl, rfl, rfl⟩ hfr,
    (TemplateSetIter.readsFrames kind _).yields ⟨rfl, rfl, rfl, rfl⟩ hfr', ?_, ?_, ?_, ?_⟩
  · rintro records rest hrecords rfl hbig
    have hnopad : ¬ kind.padding rest := Nat.not_lt_of_le hbig.header
    obtain ⟨tail, htail⟩ := hframing'.total rest
    have hread := hframing'.frames_append (fun r hr => (hrecords r hr).mono hle) htail
    obtain rfl := hfr'.unique hread
    refine ⟨?_, List.prefix_append _ _, fun hroom herr => ?_⟩
    · have hend := kind.decode_of_tooBig hbig
      exact hfr.unique (hframing.frames_err_iff.mpr ⟨rest, rfl, hnopad, hend, hrecords⟩)
    · have hfirst : tail[0]? = some (.error .fieldBufferTooSmall) := by
        rw [← herr, List.getElem?_append_right (by simp)]
        simp
      cases htail with
      | stop => simp at hfirst
      | ok => simp at hfirst
      | err _ hdec =>
        obtain rfl := by simpa using hfirst
        exact hroom (TemplateSetKind.tooBig_of_decode hdec)
  · intro hnone
    refine Frames.unique (hframing.frames_congr (fun records rest hrecords hbuf => ?_) hfr) hfr'
    exact TemplateSetKind.decode_congr (fun hbig => hnone ⟨records, rest, hrecords, hbuf, hbig⟩) hle
  · intro hsize
    rw [hsize] at hfr
    exact hfr.unique hfr'
  · intro hroom herr
    obtain ⟨records, rfl | ⟨e, rfl⟩⟩ := hfr'.shape
    · simp at herr
    · obtain ⟨rest, -, -, hdec, -⟩ := hframing'.frames_err_iff.mp hfr'
      obtain rfl : Error.fieldBufferTooSmall = e := by simpa using herr
      exact absurd (TemplateSetKind.tooBig_of_decode hdec).le (Nat.not_lt_of_le hroom)

theorem scratch_only_limits_truncated :
    Yields TemplateSetIter.next
      (.new [1, 0, 0, 1, 0, 8, 0, 4, 1, 1, 0, 2] [.empty] .template)
      [.ok ⟨256, 0, [⟨8, none, 4⟩]⟩, .error .fieldBufferTooSmall] := by
  obtain ⟨items, items', hitems, -, hbig, -⟩ := scratch_only_limits .template
    [1, 0, 0, 1, 0, 8, 0, 4, 1, 1, 0, 2] [.empty] [.empty, .empty] (by decide)
  have hvalid : ∀ r ∈ [(⟨256, 0, [⟨8, none, 4⟩]⟩ : TemplateRecord)],
      TemplateSetKind.template.Valid 1 r := by
    intro r hr
    obtain rfl := List.mem_singleton.mp hr
    exact ⟨⟨by decide, by decide, by decide, rfl⟩, by simp [FieldSpecifier.WellFormed]⟩
  obtain ⟨rfl, -⟩ := hbig _ [1, 1, 0, 2] hvalid rfl ⟨by decide, by decide, rfl, by decide⟩
  exact hitems

end IpfixParser

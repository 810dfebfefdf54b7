import IpfixParser.Wire.Template

/-!
# Messages, sets and template sets are cut exactly

The iterators over the sets of a payload and over the records of a template set read the frames of
their buffers, so the facts about framed streams hold of them: what they yield is what the buffer is
a concatenation of, up to padding or up to the first byte where that stops being possible.
-/

namespace IpfixParser

open Lib

theorem isReservedSetId_iff {id : UInt16} :
    isReservedSetId id ↔ id = 0 ∨ id = 1 ∨ 4 ≤ id ∧ id ≤ 255 := by
  simp only [isReservedSetId, setIdDataMin, setIdTemplate, setIdOptionsTemplate]
  grind

theorem Set.length_flatMap_encode (sets : List Set) (rest : Bytes) :
    (sets.flatMap Set.encode ++ rest).length =
      (sets.map fun s => setHeaderLen + s.records.length).sum + rest.length := by
  simp [List.length_flatMap]

/-- A message is framed by its own length word, its sets by theirs. -/
theorem message_sets_framing :
    (∀ b : Bytes, (∃ h p, MessageHeader.decode b = .ok (h, p)) ↔
      16 ≤ b.length ∧ u16At b 0 = 10 ∧ 16 ≤ (u16At b 2).toNat ∧ (u16At b 2).toNat ≤ b.length) ∧
    (∀ (b b' : Bytes) (h : MessageHeader) (p : Bytes), MessageHeader.decode b = .ok (h, p) →
      h.length = u16At b 2 ∧ p = (b.drop 16).take ((u16At b 2).toNat - 16) ∧
      (b'.take (u16At b 2).toNat = b.take (u16At b 2).toNat →
        MessageHeader.decode b' = .ok (h, p))) ∧
    (∀ p : Bytes, ∃ (sets : List Set) (rest : Bytes),
      p = sets.flatMap Set.encode ++ rest ∧
      (sets.map fun s => 4 + s.records.length).sum + rest.length = p.length ∧
      (∀ s ∈ sets, s.WellFormed) ∧
      (rest.length < 4 → Yields SetIter.next (.new p) (sets.map .ok)) ∧
      (4 ≤ rest.length → ∃ e, Yields SetIter.next (.new p) (sets.map .ok ++ [.error e]) ∧
        (e = .invalidLength ∧ ((u16At rest 2).toNat < 4 ∨ rest.length < (u16At rest 2).toNat) ∨
          e = .reservedSetId ∧ 4 ≤ (u16At rest 2).toNat ∧ (u16At rest 2).toNat ≤ rest.length ∧
            (u16At rest 0 = 0 ∨ u16At rest 0 = 1 ∨ 4 ≤ u16At rest 0 ∧ u16At rest 0 ≤ 255)))) ∧
    (∀ (sets : List Set) (pad : Bytes), (∀ s ∈ sets, s.WellFormed) → pad.length < 4 →
      Yields SetIter.next (.new (sets.flatMap Set.encode ++ pad)) (sets.map .ok)) := by
  refine ⟨fun b => ?_, fun b b' h p hdec => ?_, fun p => ?_, fun sets pad hsets hpad => ?_⟩
  · constructor
    · rintro ⟨h, p, hdec⟩
      obtain ⟨⟨henough, hversion, hge, hle⟩, -⟩ := MessageHeader.decode_eq_ok_iff.mp hdec
      exact ⟨henough, hversion, hge, hle⟩
    · rintro ⟨henough, hversion, hge, hle⟩
      exact ⟨_, _, MessageHeader.decode_eq_ok_iff.mpr ⟨⟨henough, hversion, hge, hle⟩, rfl⟩⟩
  · obtain ⟨-, hof⟩ := MessageHeader.decode_eq_ok_iff.mp hdec
    obtain ⟨rfl, rfl⟩ : h = (MessageHeader.ofBytes b).1 ∧ p = (MessageHeader.ofBytes b).2 := by
      simp [← hof]
    exact ⟨rfl, rfl, MessageHeader.decode_congr hdec⟩
  · obtain ⟨items, hfr⟩ := Set.framing.total p
    obtain ⟨sets, rfl | ⟨e, rfl⟩⟩ := hfr.shape
    · obtain ⟨rest, rfl, hpad, hsets⟩ := Set.framing.frames_ok_iff.mp hfr
      refine ⟨sets, rest, rfl, (Set.length_flatMap_encode sets rest).symm, hsets, fun _ => ?_, ?_⟩
      · exact SetIter.readsFrames.yields rfl hfr
      · exact fun hlong => absurd hpad (Nat.not_lt_of_le hlong)
    · obtain ⟨rest, rfl, hpad, hdec, hsets⟩ := Set.framing.frames_err_iff.mp hfr
      refine ⟨sets, rest, rfl, (Set.length_flatMap_encode sets rest).symm, hsets,
        fun hshort => absurd hshort hpad, fun _ => ⟨e, SetIter.readsFrames.yields rfl hfr, ?_⟩⟩
      rw [← isReservedSetId_iff]
      exact (Set.decode_eq_err_iff hpad).mp hdec
  · exact SetIter.readsFrames.yields rfl (Set.framing.frames_ok_iff.mpr ⟨pad, rfl, hpad, hsets⟩)

/-- The records of a template set are the ones it is a concatenation of. -/
theorem templateSetIter_grammar (kind : TemplateSetKind) (buf : Bytes)
    (fieldsBuf : List FieldSpecifier) :
    (∀ records : List TemplateRecord,
      Yields TemplateSetIter.next (.new buf fieldsBuf kind) (records.map .ok) ↔
        ∃ pad, buf = records.flatMap kind.encode ++ pad ∧ pad.length < kind.minHeader ∧
          ∀ r ∈ records, kind.Valid fieldsBuf.length r) ∧
    ((¬ ∃ (records : List TemplateRecord) (pad : Bytes), buf = records.flatMap kind.encode ++ pad ∧
        pad.length < kind.minHeader ∧ ∀ r ∈ records, kind.Valid fieldsBuf.length r) →
      ∃ records e, Yields TemplateSetIter.next (.new buf fieldsBuf kind)
          (records.map .ok ++ [.error e]) ∧
        (∀ r ∈ records, kind.Valid fieldsBuf.length r) ∧ records.flatMap kind.encode <+: buf ∧
        ∀ records' : List TemplateRecord, (∀ r ∈ records', kind.Valid fieldsBuf.length r) →
          records'.flatMap kind.encode <+: buf → records' <+: records) ∧
    (∀ r rest, kind.Valid fieldsBuf.length r →
      ∃ fieldsBuf', kind.decodeInto (kind.encode r ++ rest) fieldsBuf =
        .ok (.ok (r, rest), fieldsBuf')) ∧
    (∀ r rest fieldsBuf', kind.decodeInto buf fieldsBuf = .ok (.ok (r, rest), fieldsBuf') →
      kind.Valid fieldsBuf.length r ∧ kind.encode r ++ rest = buf) := by
  have hframing := kind.framing fieldsBuf.length
  have hreads := TemplateSetIter.readsFrames kind fieldsBuf.length
  have hyields : ∀ items, Yields TemplateSetIter.next (.new buf fieldsBuf kind) items ↔
      Frames kind.padding (kind.decode fieldsBuf.length) buf items := fun items =>
    hreads.yields_iff hframing ⟨rfl, rfl, rfl, rfl⟩
  refine ⟨fun records => ?_, fun hnot => ?_, fun r rest hr => ?_, fun r rest fieldsBuf' h => ?_⟩
  · rw [hyields, hframing.frames_ok_iff]
    rfl
  · obtain ⟨items, hfr⟩ := hframing.total buf
    obtain ⟨records, rfl | ⟨e, rfl⟩⟩ := hfr.shape
    · exact absurd ⟨records, hframing.frames_ok_iff.mp hfr⟩ hnot
    · obtain ⟨rest, hbuf, -, -, hrecords⟩ := hframing.frames_err_iff.mp hfr
      exact ⟨records, e, (hyields _).mpr hfr, hrecords, ⟨rest, hbuf.symm⟩,
        fun _ hl' hpre => hframing.longest hfr hl' hpre⟩
  · exact TemplateSetKind.decodeInto_ok_iff.mpr (hframing.complete hr rest)
  · obtain ⟨hr, hbuf⟩ := hframing.sound (TemplateSetKind.decodeInto_ok_iff.mp ⟨fieldsBuf', h⟩)
    exact ⟨hr, hbuf.symm⟩

end IpfixParser

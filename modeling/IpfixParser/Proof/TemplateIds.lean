import IpfixParser.Proof.Framing

/-!
# What is known of a decoded template

The template decoders check everything that `TemplateRecord` documents of a record, but for one thing:
that its id is at least 256. So a record is as documented exactly if an exporter gave it such an id.
-/

namespace IpfixParser

open Lib

/-- What `TemplateRecord` documents of a record of a template set, decoded with a scratch buffer of `n`
specifiers, and what its store relies on: a data set can be sent for it. -/
structure TemplateSetKind.Documented (kind : TemplateSetKind) (n : Nat) (r : TemplateRecord) : Prop where
  id : 256 ≤ r.id
  referenced : ∃ b s rest, Set.decode b = .ok (s, rest) ∧ s.kind = .data r.id
  nonempty : r.fields ≠ []
  fits : r.fields.length ≤ n
  elements : ∀ f ∈ r.fields, f.informationElementId.toNat < 2 ^ 15
  scope : match kind with
    | .template => r.scopeFieldCount = 0
    | .optionsTemplate => 1 ≤ r.scopeFieldCount.toNat ∧ r.scopeFieldCount.toNat ≤ r.fields.length

theorem Set.decode_data {id : TemplateId} (h : 256 ≤ id) :
    Set.decode (Set.mk id (.data id) []).encode = .ok (⟨id, .data id, []⟩, []) := by
  have hset : Set.WellFormed ⟨id, .data id, []⟩ := ⟨.data h, Nat.zero_le _⟩
  simpa using Set.framing.complete hset []

theorem Set.le_of_decode_data {b rest : Bytes} {s : Set} {id : TemplateId}
    (h : Set.decode b = .ok (s, rest)) (hid : s.kind = .data id) : 256 ≤ id := by
  have hnames := (Set.framing.sound h).1.kind
  rw [hid] at hnames
  cases hnames with
  | data hle => exact hle

namespace TemplateSetKind

theorem Valid.documented_iff {kind : TemplateSetKind} {n : Nat} {r : TemplateRecord}
    (h : kind.Valid n r) : kind.Documented n r ↔ 256 ≤ r.id := by
  refine ⟨fun hdoc => hdoc.id, fun hid => ?_⟩
  exact {
    id := hid
    referenced := ⟨_, _, _, Set.decode_data hid, rfl⟩
    nonempty := List.ne_nil_of_length_pos h.header.pos
    fits := h.header.fits
    elements := h.fields
    scope := by
      have hscope := h.header.scope
      cases kind with
      | template => exact hscope
      | optionsTemplate => exact hscope }

theorem call_iff (kind : TemplateSetKind) (buf : Bytes) (fieldsBuf : List FieldSpecifier)
    (r : TemplateRecord) :
    (∃ k, call TemplateSetIter.next k (.new buf fieldsBuf kind) = .ok (some (.ok r))) ↔
      ∃ records : List TemplateRecord, (∀ r ∈ records, kind.Valid fieldsBuf.length r) ∧
        records.flatMap kind.encode <+: buf ∧ r ∈ records := by
  have hframing := kind.framing fieldsBuf.length
  have hreads := TemplateSetIter.readsFrames kind fieldsBuf.length
  constructor
  · rintro ⟨k, hcall⟩
    obtain ⟨items, hfr⟩ := hframing.total buf
    have hitem := (hreads.yields ⟨rfl, rfl, rfl, rfl⟩ hfr k).symm.trans hcall
    have hmem := List.mem_of_getElem? (Outcome.ok.inj hitem)
    obtain ⟨records, rfl | ⟨e, rfl⟩⟩ := hfr.shape
    · obtain ⟨rest, rfl, -, hrecords⟩ := hframing.frames_ok_iff.mp hfr
      exact ⟨records, hrecords, List.prefix_append _ _, by simpa using hmem⟩
    · obtain ⟨rest, rfl, -, -, hrecords⟩ := hframing.frames_err_iff.mp hfr
      exact ⟨records, hrecords, List.prefix_append _ _, by simpa using hmem⟩
  · rintro ⟨records, hrecords, ⟨rest, rfl⟩, hr⟩
    obtain ⟨tail, htail⟩ := hframing.total rest
    have hyields : Yields TemplateSetIter.next
        (.new (records.flatMap kind.encode ++ rest) fieldsBuf kind) (records.map .ok ++ tail) :=
      hreads.yields ⟨rfl, rfl, rfl, rfl⟩ (hframing.frames_append hrecords htail)
    obtain ⟨k, hk, rfl⟩ := List.getElem_of_mem hr
    refine ⟨k, (hyields k).trans ?_⟩
    rw [List.getElem?_append_left (by simpa using hk), List.getElem?_map, List.getElem?_eq_getElem hk]
    rfl

end TemplateSetKind

/-- Every template that `TemplateSetIter` yields is as documented exactly if no template in front of its
buffer has an id below 256. All but the id is so in any case. -/
theorem yielded_documented_iff (kind : TemplateSetKind) (buf : Bytes)
    (fieldsBuf : List FieldSpecifier) :
    ((∀ k r, call TemplateSetIter.next k (.new buf fieldsBuf kind) = .ok (some (.ok r)) →
        kind.Documented fieldsBuf.length r) ↔
      ∀ records : List TemplateRecord, (∀ r ∈ records, kind.Valid fieldsBuf.length r) →
        records.flatMap kind.encode <+: buf → ∀ r ∈ records, 256 ≤ r.id) ∧
    (∀ k r, call TemplateSetIter.next k (.new buf fieldsBuf kind) = .ok (some (.ok r)) →
      (kind.Documented fieldsBuf.length r ↔ 256 ≤ r.id)) := by
  have hvalid : ∀ k r, call TemplateSetIter.next k (.new buf fieldsBuf kind) = .ok (some (.ok r)) →
      (kind.Documented fieldsBuf.length r ↔ 256 ≤ r.id) := by
    intro k r hcall
    obtain ⟨records, hrecords, -, hr⟩ := (kind.call_iff buf fieldsBuf r).mp ⟨k, hcall⟩
    exact (hrecords r hr).documented_iff
  refine ⟨⟨fun hall records hrecords hpre r hr => ?_, fun hids k r hcall => ?_⟩, hvalid⟩
  · obtain ⟨k, hcall⟩ := (kind.call_iff buf fieldsBuf r).mpr ⟨records, hrecords, hpre, hr⟩
    exact (hall k r hcall).id
  · obtain ⟨records, hrecords, hpre, hr⟩ := (kind.call_iff buf fieldsBuf r).mp ⟨k, hcall⟩
    exact (hvalid k r hcall).mpr (hids records hrecords hpre r hr)

/-- A template with id 5 is decoded, though there are no data sets for it. -/
theorem yielded_undocumented :
    call TemplateSetIter.next 0 (.new [0, 5, 0, 1, 0, 8, 0, 4] [.empty] .template) =
        .ok (some (.ok ⟨5, 0, [⟨8, none, 4⟩]⟩)) ∧
      ¬ TemplateSetKind.template.Documented 1 ⟨5, 0, [⟨8, none, 4⟩]⟩ ∧
      ¬ ∃ b s rest, Set.decode b = .ok (s, rest) ∧ s.kind = .data 5 := by
  refine ⟨rfl, fun h => absurd h.id (by decide), ?_⟩
  rintro ⟨b, s, rest, hdec, hkind⟩
  exact absurd (Set.le_of_decode_data hdec hkind) (by decide)

end IpfixParser

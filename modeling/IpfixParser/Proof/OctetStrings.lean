import IpfixParser.Model.Registry
import IpfixParser.Proof.PlanReference

/-!
# Octet strings in plans

`Op::Copy` is documented to be for octet arrays, strings of fixed length and MAC addresses, but
`DecodePlan::build` never asks for a field's type: whatever is as long as an integer is swapped like
one. A string of 2, 4, 8 or 16 octets is reversed on its way into the buffer of a little-endian
machine. Apart from that, only a later field of the same information element, which goes to the same
place, can change one (`octetStrings_kept_iff`); `FieldValue.stays_iff_of_last` is for a field that has
none behind it.
-/

namespace IpfixParser

open Lib

/-- The value is, by the registry, of one of the types that are sequences of octets. -/
def FieldValue.IsOctetString (registry : List InfoElement) (f : FieldValue) : Prop :=
  ∃ e, lookupField registry f = .ok (some e) ∧
    e.dataType ∈ [DataType.octetArray, DataType.string, DataType.macAddress]

/-- The mapped octet strings stand in the buffer as they came. -/
def OctetStringsKept (registry : List InfoElement) (mappings : List Mapping) (values : List FieldValue)
    (dst : Bytes) : Prop :=
  ∀ f ∈ values, f.IsOctetString registry → ∀ m ∈ mappings, m.name = f.name →
    (dst.drop m.dstOffset.toNat).take f.data.length = f.data

theorem FieldValue.IsOctetString.of_name {registry : List InfoElement} {f g : FieldValue}
    (h : f.IsOctetString registry) (hname : g.name = f.name) : g.IsOctetString registry := by
  obtain ⟨hid, henterprise⟩ := Prod.mk.inj hname
  unfold IsOctetString lookupField at h ⊢
  rwa [hid, henterprise]

/-- What it takes for a field's octets to be in the buffer as they came, where `later` are the fields
behind it. -/
structure FieldValue.Stays (e : Endian) (f : FieldValue) (later : List FieldValue) : Prop where
  /-- A later value of the information element has the same octets, as far as both go. -/
  agree : ∀ g ∈ later, g.name = f.name → ∀ j < f.data.length, j < g.data.length →
    g.data[j]? = f.data[j]?
  /-- An octet that no later value goes over is not swapped, or is swapped for its like. -/
  unswapped : ∀ j < f.data.length, (∀ g ∈ later, g.name = f.name → g.data.length ≤ j) →
    e = .big ∨ f.data.length ∉ [2, 4, 8, 16] ∨ f.data.reverse[j]? = f.data[j]?

/-- A field that no other one of its information element follows stays when it is not as long as an
integer, or reads the same backwards. -/
theorem FieldValue.stays_iff_of_last {e : Endian} {f : FieldValue} {later : List FieldValue}
    (h : ∀ g ∈ later, g.name ≠ f.name) :
    f.Stays e later ↔ e = .big ∨ f.data.length ∉ [2, 4, 8, 16] ∨ f.data.reverse = f.data := by
  constructor
  · rintro ⟨-, hunswapped⟩
    by_contra! hnot
    obtain ⟨hbig, hlen, hne⟩ := hnot
    refine hne (List.ext_getElem? fun j => ?_)
    by_cases hj : j < f.data.length
    · have hplace := hunswapped j hj fun g hg hname => absurd hname (h g hg)
      exact (hplace.resolve_left hbig).resolve_left (not_not.mpr hlen)
    · rw [List.getElem?_eq_none (Nat.le_of_not_lt hj),
        List.getElem?_eq_none (by simpa using Nat.le_of_not_lt hj)]
  · intro hcond
    refine ⟨fun g hg hname => absurd hname (h g hg), fun j _ _ => ?_⟩
    exact hcond.imp_right (Or.imp_right fun heq => by rw [heq])

theorem getElem?_nativeBytes_iff {e : Endian} {v : Bytes} {j : Nat} :
    (nativeBytes e v)[j]? = v[j]? ↔
      e = .big ∨ v.length ∉ [2, 4, 8, 16] ∨ v.reverse[j]? = v[j]? := by
  rw [nativeBytes_eq_inMemory, inMemory]
  cases e with
  | big => simp
  | little =>
    by_cases hlen : v.length ∈ [2, 4, 8, 16]
    · rw [if_pos ⟨rfl, hlen⟩]
      simp [hlen]
    · rw [if_neg fun h => hlen h.2]
      simp [hlen]

/-- A plan keeps a record's octet strings exactly when none that is mapped is changed by the swap of an
integer or by a later field of its information element. -/
theorem octetStrings_kept_iff (tg : Target) (registry : List InfoElement) {t : TemplateRef}
    {mappings : List Mapping} {plan : DecodePlan} (hfields : t.fields.length ≤ tg.usizeMax)
    (hbuild : DecodePlan.build t mappings = .ok plan) (hdisj : DisjointRanges t.fields mappings)
    {buf : Bytes} (hbuf : buf.length ≤ tg.isizeMax) {it : DataRecordIter}
    (hnew : DataRecordIter.new tg buf t = .ok it) {k : Nat} {r : DataRecord}
    (hr : call (DataRecordIter.next tg) k it = .ok (some (.ok r))) {dst : Bytes}
    (hdst : plan.dstBufLen.toNat ≤ dst.length) :
    ∃ (dst' : Bytes) (values : List FieldValue),
      r.decodeInto tg plan dst = .ok (.ok (), dst') ∧
      Yields (FieldIter.next tg) r.fields (values.map .ok) ∧
      (OctetStringsKept registry mappings values dst' ↔
        ∀ f later, f :: later <:+ values → f.IsOctetString registry →
          (∃ m ∈ mappings, m.name = f.name) → f.Stays tg.endian later) := by
  obtain ⟨dst', vs, hvs, rfl, hdecode, -, hheld⟩ := decodeInto_values tg hbuild hdisj hbuf hnew hr hdst
  obtain ⟨_, -, -, -, hvar, -⟩ := DecodePlan.inv_of_build hbuild
  refine ⟨dst', _, hdecode, hvs.yields hvar hfields, ?_⟩
  constructor
  · rintro hkept f later hsuffix hoctets ⟨m, hm, hname⟩
    have hplaces : ∀ g ∈ f :: later, g.name = f.name → ∀ j < g.data.length,
        dst'[m.dstOffset.toNat + j]? = g.data[j]? := by
      intro g hg hgname
      exact take_drop_eq_iff.mp
        (hkept g (hsuffix.subset hg) (hoctets.of_name hgname) m hm (hname.trans hgname.symm))
    constructor
    · intro g hg hgname j hj hj'
      rw [← hplaces g (List.mem_cons_of_mem _ hg) hgname j hj', hplaces f List.mem_cons_self rfl j hj]
    · intro j hj hlater
      obtain ⟨y, hlast, hbyte⟩ := (hheld m hm f (hsuffix.subset List.mem_cons_self) hname).2 j hj
      rw [lastAt_eq_some_iff.mpr ⟨hname.symm, hj, later, hsuffix, fun g hg hgname =>
        hlater g hg (hgname.trans hname)⟩, Option.some_inj] at hlast
      subst hlast
      rw [← getElem?_nativeBytes_iff, ← hbyte]
      exact hplaces f List.mem_cons_self rfl j hj
  · intro hcond f hf hoctets m hm hname
    rw [take_drop_eq_iff]
    intro j hj
    -- the value that is there in the end, and that its own octet stays
    obtain ⟨y, hlast, hbyte⟩ := (hheld m hm f hf hname).2 j hj
    obtain ⟨hyname, hyj, later, hsuffix, hlater⟩ := lastAt_eq_some_iff.mp hlast
    have hsame : y.name = f.name := hyname.trans hname
    have hy := hcond y later hsuffix (hoctets.of_name hsame) ⟨m, hm, hyname.symm⟩
    have hown : (nativeBytes tg.endian y.data)[j]? = y.data[j]? :=
      getElem?_nativeBytes_iff.mpr
        (hy.unswapped j hyj fun g hg hgname => hlater g hg (hgname.trans hyname))
    rw [hbyte, hown]
    -- it is `f` or comes after `f`
    obtain ⟨before, hvalues⟩ := hsuffix
    rw [← hvalues, List.mem_append, List.mem_cons] at hf
    rcases hf with hf | rfl | hf
    · obtain ⟨first, between, rfl⟩ := List.append_of_mem hf
      have hfsuffix : f :: (between ++ y :: later) <:+ fieldValues t.fields vs :=
        ⟨first, by rw [← hvalues, List.append_assoc, List.cons_append]⟩
      exact (hcond f _ hfsuffix hoctets ⟨m, hm, hname⟩).agree y (by simp) hsame j hj hyj
    · rfl
    · exact absurd hj (Nat.not_lt_of_le (hlater f hf hname.symm))

theorem octetStrings_kept_iff_interface :
    let registry : List InfoElement := [⟨56, "sourceMacAddress", .macAddress, some .default⟩,
      ⟨82, "interfaceName", .string, some .default⟩]
    let t : TemplateRef := ⟨256, 0, [⟨82, none, 4⟩, ⟨56, none, 6⟩, ⟨82, none, 5⟩]⟩
    let r : DataRecord := ⟨[101, 116, 104, 48, 2, 0, 0, 0, 0, 1, 101, 116, 104, 49, 48], t⟩
    ∃ (dst' : Bytes) (values : List FieldValue),
      r.decodeInto .le64 ⟨15, 11, [.swap .u32 1 0 0, .copy 4 5 6, .copy 10 0 5]⟩ (List.replicate 11 0) =
        .ok (.ok (), dst') ∧
      Yields (FieldIter.next .le64) r.fields (values.map .ok) ∧
      (OctetStringsKept registry [.new 82 0, .new 56 5] values dst' ↔
        ∀ f later, f :: later <:+ values → f.IsOctetString registry →
          (∃ m ∈ [Mapping.new 82 0, Mapping.new 56 5], m.name = f.name) → f.Stays .little later) := by
  intro registry t r
  have hbuild : DecodePlan.build t [.new 82 0, .new 56 5] =
      .ok ⟨15, 11, [.swap .u32 1 0 0, .copy 4 5 6, .copy 10 0 5]⟩ := rfl
  have hdisj : DisjointRanges t.fields [.new 82 0, .new 56 5] := .pair (by decide)
  have hnew : DataRecordIter.new .le64
      [101, 116, 104, 49, 2, 0, 0, 0, 0, 0, 101, 116, 104, 50, 48,
        101, 116, 104, 48, 2, 0, 0, 0, 0, 1, 101, 116, 104, 49, 48] t = .ok ⟨_, t, 15, .allFixed⟩ := rfl
  have hr : call (DataRecordIter.next .le64) 1
      ⟨[101, 116, 104, 49, 2, 0, 0, 0, 0, 0, 101, 116, 104, 50, 48,
        101, 116, 104, 48, 2, 0, 0, 0, 0, 1, 101, 116, 104, 49, 48], t, 15, .allFixed⟩ =
        .ok (some (.ok r)) := rfl
  exact octetStrings_kept_iff .le64 registry (by decide) hbuild hdisj (by decide) hnew hr (by decide)

/-- The name of an interface, declared with four octets, is reversed. -/
theorem octetString_reversed :
    let e : InfoElement := ⟨82, "interfaceName", .string, some .default⟩
    let t : TemplateRef := ⟨256, 0, [⟨82, none, 4⟩]⟩
    let plan : DecodePlan := ⟨4, 4, [.swap .u32 1 0 0]⟩
    let eth0 : Bytes := [101, 116, 104, 48]
    elements [["ElementID", "Name", "Abstract Data Type", "Data Type Semantics", "Status"],
      ["82", "interfaceName", "string", "default", "current"]] = .ok [e] ∧
    DecodePlan.build t [.new 82 0] = .ok plan ∧
    (∃ it, DataRecordIter.new .le64 eth0 t = .ok it ∧
      call (DataRecordIter.next .le64) 0 it = .ok (some (.ok ⟨eth0, t⟩))) ∧
    Yields (FieldIter.next .le64) (DataRecord.fields ⟨eth0, t⟩) [.ok ⟨82, none, eth0⟩] ∧
    DataRecord.decodeInto .le64 ⟨eth0, t⟩ plan [0, 0, 0, 0] = .ok (.ok (), [48, 104, 116, 101]) ∧
    ¬OctetStringsKept [e] [.new 82 0] [⟨82, none, eth0⟩] [48, 104, 116, 101] := by
  refine ⟨by decide +kernel, rfl, ⟨_, rfl, rfl⟩, ?_, by decide +kernel, ?_⟩
  · have hname : Sized [⟨82, none, 4⟩] [[101, 116, 104, 48]] := .cons rfl .nil
    exact Sized.yields (t := ⟨256, 0, [⟨82, none, 4⟩]⟩) hname (by decide) (by decide)
  · intro hkept
    have hstring : FieldValue.IsOctetString [⟨82, "interfaceName", .string, some .default⟩]
        ⟨82, none, [101, 116, 104, 48]⟩ := ⟨_, rfl, by decide⟩
    have h := hkept _ (by simp) hstring (.new 82 0) (by simp) rfl
    exact absurd h (by decide)

end IpfixParser

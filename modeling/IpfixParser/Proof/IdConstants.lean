import IpfixParser.Proof.Registry

/-!
# The constants of the module `id`

Every element of the registry gets one constant, named after it. An element whose name was taken gets
its number as a suffix, and no two constants have one name exactly if no element is called by such a
name itself (`idConstants_nodup_iff`).
-/

namespace IpfixParser

open Lib

/-! ### Suffixes -/

theorem eq_of_append_underscore {a b d d' : List Char} (hd : '_' ∉ d) (hd' : '_' ∉ d')
    (h : a ++ '_' :: d = b ++ '_' :: d') : d = d' := by
  rcases List.append_eq_append_iff.mp h with ⟨c, -, hc⟩ | ⟨c, -, hc⟩
  · cases c with
    | nil => exact (List.cons.inj hc).2
    | cons x c =>
      refine absurd ?_ hd
      rw [(List.cons.inj hc).2]
      simp
  · cases c with
    | nil => exact (List.cons.inj hc).2.symm
    | cons x c =>
      refine absurd ?_ hd'
      rw [(List.cons.inj hc).2]
      simp

variable (heck : String → String)

/-- The name of an element whose own is taken. -/
def suffixedName (e : InfoElement) : String := shoutyName heck e ++ "_" ++ toString e.id.toNat

theorem toList_suffixedName (e : InfoElement) :
    (suffixedName heck e).toList = (shoutyName heck e).toList ++ '_' :: Nat.toDigits 10 e.id.toNat := by
  simp [suffixedName]

theorem id_eq_of_suffixedName {e e' : InfoElement} (h : suffixedName heck e = suffixedName heck e') :
    e.id = e'.id := by
  have hchars := congrArg String.toList h
  rw [toList_suffixedName, toList_suffixedName] at hchars
  have hdigits := eq_of_append_underscore Nat.underscore_not_in_toDigits Nat.underscore_not_in_toDigits hchars
  have hnumber := congrArg (fun digits => Nat.ofDigitChars 10 digits 0) hdigits
  simp only [Nat.ofDigitChars_ten_toDigits] at hnumber
  exact UInt16.toNat_inj.mp hnumber

/-! ### The loop -/

/-- An element of a smaller number has the name. -/
def Taken (registry : List InfoElement) (e : InfoElement) : Prop :=
  ∃ e' ∈ registry, e'.id < e.id ∧ shoutyName heck e' = shoutyName heck e

instance (registry : List InfoElement) (e : InfoElement) : Decidable (Taken heck registry e) :=
  inferInstanceAs (Decidable (∃ e' ∈ registry, _))

/-- The name of an element's constant. -/
def constantName (registry : List InfoElement) (e : InfoElement) : String :=
  if Taken heck registry e then suffixedName heck e else shoutyName heck e

theorem foldl_writeConstant {before rest : List InfoElement}
    (hsorted : (before ++ rest).Pairwise fun e e' => e.id < e'.id) {seenNames : List String}
    (hseen : ∀ name, name ∈ seenNames ↔ ∃ e ∈ before, shoutyName heck e = name)
    (constants : List (String × UInt16)) :
    (rest.foldl (writeConstant heck) (seenNames, constants)).2 =
      constants ++ rest.map fun e => (constantName heck (before ++ rest) e, e.id) := by
  induction rest generalizing before seenNames constants with
  | nil => simp
  | cons e rest ih =>
    have hlater : ∀ e' ∈ rest, e.id < e'.id :=
      (List.pairwise_cons.mp (List.pairwise_append.mp hsorted).2.1).1
    have hearlier : ∀ e' ∈ before, e'.id < e.id := fun e' he' =>
      (List.pairwise_append.mp hsorted).2.2 e' he' e (List.mem_cons_self ..)
    -- in a sorted table, what comes before has the smaller numbers
    have htaken : shoutyName heck e ∈ seenNames ↔ Taken heck (before ++ e :: rest) e := by
      rw [hseen]
      constructor
      · rintro ⟨e', he', hname⟩
        exact ⟨e', List.mem_append_left _ he', hearlier e' he', hname⟩
      · rintro ⟨e', he', hlt, hname⟩
        rcases List.mem_append.mp he' with he' | he'
        · exact ⟨e', he', hname⟩
        · rcases List.mem_cons.mp he' with rfl | he'
          · exact absurd hlt (UInt16.lt_irrefl _)
          · exact absurd hlt (UInt16.lt_asymm (hlater e' he'))
    have hassoc : before ++ e :: rest = before ++ [e] ++ rest := by simp
    have hseen' : ∀ names : List String, (∀ name, name ∈ names ↔ name = shoutyName heck e ∨ name ∈ seenNames) →
        ∀ name, name ∈ names ↔ ∃ e' ∈ before ++ [e], shoutyName heck e' = name := by
      intro names hnames name
      simp only [hnames, hseen, List.mem_append, List.mem_singleton, or_and_right, exists_or,
        exists_eq_left, eq_comm (a := name)]
      exact or_comm
    have hstep : writeConstant heck (seenNames, constants) e =
        if shoutyName heck e ∈ seenNames then (seenNames, constants ++ [(suffixedName heck e, e.id)])
        else (shoutyName heck e :: seenNames, constants ++ [(shoutyName heck e, e.id)]) := rfl
    rw [List.foldl_cons, List.map_cons, hstep]
    by_cases hname : shoutyName heck e ∈ seenNames
    · rw [if_pos hname]
      rw [hassoc] at hsorted ⊢
      rw [ih hsorted (hseen' _ fun name => by
        constructor
        · exact .inr
        · rintro (rfl | h)
          · exact hname
          · exact h), ← hassoc, constantName, if_pos (htaken.mp hname)]
      simp [suffixedName]
    · rw [if_neg hname]
      rw [hassoc] at hsorted ⊢
      rw [ih hsorted (hseen' _ fun name => List.mem_cons), ← hassoc, constantName,
        if_neg fun h => hname (htaken.mpr h)]
      simp

section table

variable {heck} {registry : List InfoElement} (hsorted : registry.Pairwise fun e e' => e.id < e'.id)
include hsorted

theorem idConstants_eq : idConstants heck registry =
    registry.map fun e => (constantName heck registry e, e.id) := by
  unfold idConstants
  exact @foldl_writeConstant heck [] registry hsorted [] (by simp) []

theorem eq_of_id_eq {e e' : InfoElement} (he : e ∈ registry) (he' : e' ∈ registry) (h : e.id = e'.id) :
    e = e' := by
  have hne : registry.Pairwise fun e e' => e.id ≠ e'.id := hsorted.imp fun hlt => UInt16.ne_of_lt hlt
  exact List.inj_on_of_nodup_map (List.pairwise_map.mpr hne) he he' h

omit hsorted in
theorem exists_not_taken {e : InfoElement} (he : e ∈ registry) :
    ∃ e' ∈ registry, shoutyName heck e' = shoutyName heck e ∧ ¬ Taken heck registry e' := by
  induction h : e.id.toNat using Nat.strong_induction_on generalizing e with
  | _ n ih =>
    by_cases htaken : Taken heck registry e
    · obtain ⟨e₁, he₁, hlt, hname₁⟩ := htaken
      obtain ⟨e₂, he₂, hname₂, hfirst⟩ := ih e₁.id.toNat (h ▸ UInt16.lt_iff_toNat_lt.mp hlt) he₁ rfl
      exact ⟨e₂, he₂, hname₂.trans hname₁, hfirst⟩
    · exact ⟨e, he, rfl, htaken⟩

theorem nodup_constantName_iff : (registry.map (constantName heck registry)).Nodup ↔
    ∀ e ∈ registry, Taken heck registry e → ∀ e' ∈ registry, shoutyName heck e' ≠ suffixedName heck e := by
  have hnodup : registry.Nodup := by
    refine List.Pairwise.imp ?_ hsorted
    rintro e _ hlt rfl
    exact UInt16.lt_irrefl _ hlt
  rw [List.nodup_map_iff_inj_on hnodup]
  constructor
  · intro hinj e he htaken e' he' hname
    obtain ⟨e₀, he₀, hname₀, hfirst⟩ := @exists_not_taken heck _ _ he'
    -- the name that `e` gets is kept by `e₀`
    have heq : e₀ = e := by
      apply hinj e₀ he₀ e he
      rw [constantName, if_neg hfirst, constantName, if_pos htaken, hname₀, hname]
    exact hfirst (heq ▸ htaken)
  · intro hdistinct e he e' he' hname
    unfold constantName at hname
    split_ifs at hname with htaken htaken' htaken'
    · exact eq_of_id_eq hsorted he he' (id_eq_of_suffixedName heck hname)
    · exact absurd hname.symm (hdistinct e he htaken e' he')
    · exact absurd hname (hdistinct e' he' htaken' e he)
    · apply eq_of_id_eq hsorted he he'
      rcases lt_trichotomy e.id.toNat e'.id.toNat with hlt | heq | hlt
      · exact absurd ⟨e, he, UInt16.lt_iff_toNat_lt.mpr hlt, hname⟩ htaken'
      · exact UInt16.toNat_inj.mp heq
      · exact absurd ⟨e', he', UInt16.lt_iff_toNat_lt.mpr hlt, hname.symm⟩ htaken

end table

/-! ### The build script's constants -/

theorem elements_sorted (rows : List (List String)) :
    ∃ registry, elements rows = .ok registry ∧ registry.Pairwise fun e e' => e.id < e'.id := by
  obtain ⟨l, hl, -⟩ := foldlM_pushRow (rows.drop 1)
  refine ⟨dedupByKey _ (sortByKey _ l), by rw [elements, hl]; rfl, ?_⟩
  exact pairwise_dedupByKey (fun e : InfoElement => e.id.toNat)
    (pairwise_sortByKey (fun e => e.id.toNat) l)

/-- Whatever the table and the conversion of names, the constants are one for each element, with its
number, which `lookup` finds; an element that comes after one of the same name has a suffix. No two
constants have the same name exactly if none of these suffixed names is that of an element. -/
theorem idConstants_nodup_iff (rows : List (List String)) :
    ∃ registry, elements rows = .ok registry ∧
      (idConstants heck registry).map Prod.snd = registry.map InfoElement.id ∧
      (∀ name id, (name, id) ∈ idConstants heck registry ↔
        ∃ e, lookup registry id = .ok (some e) ∧
          name = if ∃ e' ∈ registry, e'.id < e.id ∧ shoutyName heck e' = shoutyName heck e
            then shoutyName heck e ++ "_" ++ toString e.id.toNat else shoutyName heck e) ∧
      (((idConstants heck registry).map Prod.fst).Nodup ↔
        ∀ e ∈ registry, (∃ e' ∈ registry, e'.id < e.id ∧ shoutyName heck e' = shoutyName heck e) →
          ∀ e'' ∈ registry, shoutyName heck e'' ≠ shoutyName heck e ++ "_" ++ toString e.id.toNat) := by
  obtain ⟨registry, helements, hsorted⟩ := elements_sorted rows
  have hsorted' : registry.Pairwise fun e e' => e.id.toNat < e'.id.toNat := hsorted
  refine ⟨registry, helements, ?_, ?_, ?_⟩
  · rw [idConstants_eq hsorted, List.map_map]
    rfl
  · intro name id
    rw [idConstants_eq hsorted, List.mem_map, lookup_eq hsorted']
    constructor
    · rintro ⟨e, he, heq⟩
      obtain ⟨rfl, rfl⟩ := Prod.mk.inj heq
      exact ⟨e, congrArg _ (find?_eq_of_mem hsorted' he), rfl⟩
    · rintro ⟨e, hlookup, rfl⟩
      have hfind := Outcome.ok.inj hlookup
      have hid : e.id = id := by
        have hmatch := List.find?_some hfind
        simpa [UInt16.toNat_inj] using hmatch
      exact ⟨e, List.mem_of_find?_eq_some hfind, Prod.ext rfl hid⟩
  · rw [idConstants_eq hsorted, List.map_map]
    exact nodup_constantName_iff hsorted

end IpfixParser

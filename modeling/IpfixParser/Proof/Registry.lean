import IpfixParser.Model.Registry
import Mathlib.Data.Nat.Digits.Defs

/-!
# The registry is the file's usable rows

`Describes` says when a row of the file describes an element. The build script keeps, of the rows
that describe an element with one id, the first one, and `lookup` finds exactly the kept ones.
-/

namespace IpfixParser

open Lib

/-! ### Numbers -/

/-- The number that decimal digits denote. -/
def decimalValue (digits : List Char) : Nat := Nat.ofDigits 10 (digits.map digitValue).reverse

/-- A `u16` in decimal: digits, which a `+` may precede. -/
def Decimal (s : String) (n : UInt16) : Prop :=
  ∃ digits, (s.toList = digits ∨ s.toList = '+' :: digits) ∧ digits ≠ [] ∧
    (∀ c ∈ digits, c.isDigit) ∧ decimalValue digits = n.toNat

theorem decimalValue_concat (digits : List Char) (c : Char) :
    decimalValue (digits ++ [c]) = decimalValue digits * 10 + digitValue c := by
  rw [decimalValue, List.map_append, List.reverse_append, List.map_singleton, List.reverse_singleton,
    List.singleton_append, Nat.ofDigits_cons, decimalValue]
  omega

theorem pushDigit_eq_some_iff {n m : Nat} {c : Char} :
    pushDigit n c = some m ↔ c.isDigit ∧ m = n * 10 + digitValue c ∧ m < 2 ^ 16 := by
  rw [pushDigit]
  split_ifs with h
  · simp only [Option.some.injEq]
    constructor
    · rintro rfl
      exact ⟨h.1, rfl, h.2⟩
    · exact fun h' => h'.2.1.symm
  · simp only [false_iff]
    rintro ⟨hc, rfl, hlt⟩
    exact h ⟨hc, hlt⟩

theorem foldlM_pushDigit_eq_some_iff {digits : List Char} {m : Nat} :
    digits.foldlM pushDigit 0 = some m ↔
      (∀ c ∈ digits, c.isDigit) ∧ m = decimalValue digits ∧ m < 2 ^ 16 := by
  induction digits using List.reverseRecOn generalizing m with
  | nil =>
    simp only [List.foldlM_nil, Option.pure_def, Option.some.injEq, List.not_mem_nil, false_implies,
      implies_true, true_and]
    constructor
    · rintro rfl
      exact ⟨rfl, by omega⟩
    · exact fun h => h.1.symm
  | append_singleton digits c ih =>
    rw [List.foldlM_append, Option.bind_eq_bind, Option.bind_eq_some_iff, decimalValue_concat]
    simp only [ih, List.foldlM_cons, List.foldlM_nil, bind_pure, pushDigit_eq_some_iff,
      List.forall_mem_append, List.forall_mem_singleton]
    constructor
    · rintro ⟨n, ⟨hdigits, rfl, _⟩, hc, hm, hlt⟩
      exact ⟨⟨hdigits, hc⟩, hm, hlt⟩
    · rintro ⟨⟨hdigits, hc⟩, hm, hlt⟩
      exact ⟨_, ⟨hdigits, rfl, by omega⟩, hc, hm, hlt⟩

theorem decimal_iff {s : String} {n : UInt16} {digits : List Char}
    (h : s.toList = '+' :: digits ∨ s.toList = digits ∧ ∀ ds, digits ≠ '+' :: ds) :
    Decimal s n ↔ digits ≠ [] ∧ (∀ c ∈ digits, c.isDigit) ∧ decimalValue digits = n.toNat := by
  constructor
  · rintro ⟨ds, hs, hne, hdigits, hvalue⟩
    obtain rfl : digits = ds := by
      rcases h with h | ⟨h, hplus⟩ <;> rcases hs with hs | hs
      · rw [h] at hs
        exact absurd (hdigits '+' (by simp [← hs])) (by decide)
      · exact List.tail_eq_of_cons_eq (h.symm.trans hs)
      · exact h.symm.trans hs
      · exact absurd (h.symm.trans hs) (hplus ds)
    exact ⟨hne, hdigits, hvalue⟩
  · rintro ⟨hne, hdigits, hvalue⟩
    exact ⟨digits, h.symm.imp And.left id, hne, hdigits, hvalue⟩

theorem parseU16_eq_some_iff {s : String} {n : UInt16} : parseU16 s = some n ↔ Decimal s n := by
  have hvalue : ∀ digits : List Char, (if digits = [] then none
      else (digits.foldlM pushDigit 0).map UInt16.ofNat) = some n ↔
        digits ≠ [] ∧ (∀ c ∈ digits, c.isDigit) ∧ decimalValue digits = n.toNat := by
    intro digits
    split_ifs with hne
    · simp [hne]
    · simp only [Option.map_eq_some_iff, foldlM_pushDigit_eq_some_iff, ne_eq, hne, not_false_eq_true,
        true_and]
      constructor
      · rintro ⟨m, ⟨hdigits, rfl, hlt⟩, rfl⟩
        exact ⟨hdigits, (UInt16.toNat_ofNat_of_lt hlt).symm⟩
      · rintro ⟨hdigits, hm⟩
        exact ⟨n.toNat, ⟨hdigits, hm.symm, n.toNat_lt⟩, UInt16.ofNat_toNat⟩
  rw [parseU16]
  split
  · next digits hs => exact (hvalue digits).trans (decimal_iff (.inl hs)).symm
  · next hplus => exact (hvalue _).trans (decimal_iff (.inr ⟨rfl, hplus⟩)).symm

/-! ### Rows -/

/-- A row describes an element: it has a name, a known data type and a number, and is current. -/
inductive Describes : List String → InfoElement → Prop
  | mk {idField name dtype semantic status : String} {rest : List String} {id : UInt16}
      {dataType : DataType} (hname : trim name ≠ "") (hdtype : trim dtype ≠ "")
      (hstatus : eqIgnoreAsciiCase (trim status) "current") (hid : Decimal (trim idField) id)
      (htype : dataTypeVariant (trim dtype) = some dataType) :
      Describes (idField :: name :: dtype :: semantic :: status :: rest)
        ⟨id, trim name, dataType, semanticVariant (trim semantic)⟩

/-- The first row that describes an element with the number `id`, and its element. -/
def FirstRow (rows : List (List String)) (id : UInt16) (e : InfoElement) : Prop :=
  ∃ before row after, rows = before ++ row :: after ∧ Describes row e ∧ e.id = id ∧
    ∀ row' ∈ before, ∀ e', Describes row' e' → e'.id ≠ id

theorem not_firstRow_nil {id : UInt16} {e : InfoElement} : ¬FirstRow [] id e := by
  rintro ⟨before, row, after, h, _⟩
  simp at h

theorem firstRow_cons {row : List String} {rows : List (List String)} {id : UInt16} {e : InfoElement} :
    FirstRow (row :: rows) id e ↔ Describes row e ∧ e.id = id ∨
      (∀ e', Describes row e' → e'.id ≠ id) ∧ FirstRow rows id e := by
  constructor
  · rintro ⟨before, row', after, h, hrow, hid, hbefore⟩
    cases before with
    | nil =>
      cases h
      exact .inl ⟨hrow, hid⟩
    | cons _ before =>
      cases h
      exact .inr ⟨hbefore row (by simp), before, row', after, rfl, hrow, hid,
        fun r hr => hbefore r (by simp [hr])⟩
  · rintro (⟨hrow, hid⟩ | ⟨hrow, before, row', after, rfl, hrow', hid, hbefore⟩)
    · exact ⟨[], row, rows, rfl, hrow, hid, by simp⟩
    · refine ⟨row :: before, row', after, rfl, hrow', hid, ?_⟩
      simpa using ⟨hrow, hbefore⟩

theorem exists_firstRow {rows : List (List String)} {row : List String} {e : InfoElement}
    (hmem : row ∈ rows) (h : Describes row e) : ∃ e', FirstRow rows e.id e' := by
  induction rows with
  | nil => cases hmem
  | cons row' rows ih =>
    by_cases hrow' : ∃ e', Describes row' e' ∧ e'.id = e.id
    · obtain ⟨e', he', hid⟩ := hrow'
      exact ⟨e', firstRow_cons.mpr (.inl ⟨he', hid⟩)⟩
    · rcases List.mem_cons.mp hmem with rfl | hmem
      · exact absurd ⟨e, h, rfl⟩ hrow'
      · obtain ⟨e', he'⟩ := ih hmem
        exact ⟨e', firstRow_cons.mpr (.inr ⟨fun e'' h'' hid => hrow' ⟨e'', h'', hid⟩, he'⟩)⟩

theorem describes_iff {idField name dtype semantic status : String} {rest : List String}
    {e : InfoElement} :
    Describes (idField :: name :: dtype :: semantic :: status :: rest) e ↔
      ¬(trim name = "" ∨ trim dtype = "") ∧ eqIgnoreAsciiCase (trim status) "current" ∧
        ∃ id, Decimal (trim idField) id ∧ ∃ dataType, dataTypeVariant (trim dtype) = some dataType ∧
          e = ⟨id, trim name, dataType, semanticVariant (trim semantic)⟩ := by
  rw [not_or]
  constructor
  · rintro ⟨hname, hdtype, hstatus, hid, htype⟩
    exact ⟨⟨hname, hdtype⟩, hstatus, _, hid, _, htype, rfl⟩
  · rintro ⟨⟨hname, hdtype⟩, hstatus, id, hid, dataType, htype, rfl⟩
    exact ⟨hname, hdtype, hstatus, hid, htype⟩

theorem pushRow_cases (row : List String) :
    (∃ e, (∀ e', Describes row e' ↔ e' = e) ∧ ∀ acc, pushRow acc row = .ok (acc ++ [e])) ∨
      (∀ e, ¬Describes row e) ∧ ∀ acc, pushRow acc row = .ok acc := by
  by_cases hlen : row.length < 5
  · refine .inr ⟨fun e h => ?_, fun _ => if_pos hlen⟩
    cases h
    simp only [List.length_cons] at hlen
    omega
  obtain ⟨idField, name, dtype, semantic, status, rest, rfl⟩ :
      ∃ idField name dtype semantic status rest,
        row = idField :: name :: dtype :: semantic :: status :: rest := by
    rcases row with _ | ⟨_, _ | ⟨_, _ | ⟨_, _ | ⟨_, _ | ⟨_, _⟩⟩⟩⟩⟩
    case cons.cons.cons.cons.cons => exact ⟨_, _, _, _, _, _, rfl⟩
    all_goals simp at hlen
  simp only [pushRow, if_neg hlen, index_cons_zero, index_cons_succ, Outcome.ok_bind, Outcome.pure_eq,
    describes_iff, ← parseU16_eq_some_iff]
  by_cases hempty : trim name = "" ∨ trim dtype = ""
  · simp [hempty]
  by_cases hstatus : eqIgnoreAsciiCase (trim status) "current"
  · cases hid : parseU16 (trim idField) with
    | none => simp
    | some id =>
      cases htype : dataTypeVariant (trim dtype) with
      | none => simp
      | some dataType =>
        refine .inl ⟨⟨id, trim name, dataType, semanticVariant (trim semantic)⟩, ?_, ?_⟩
        · simp [hempty, hstatus]
        · simp [hempty, hstatus]
  · simp [hstatus]

theorem foldlM_pushRow (rows : List (List String)) :
    ∃ l, (∀ acc, rows.foldlM pushRow acc = .ok (acc ++ l)) ∧
      ∀ id e, l.find? (fun e => e.id.toNat = id.toNat) = some e ↔ FirstRow rows id e := by
  induction rows with
  | nil => exact ⟨[], by simp, by simp [not_firstRow_nil]⟩
  | cons row rows ih =>
    obtain ⟨l, hl, hfind⟩ := ih
    simp only [List.foldlM_cons, firstRow_cons]
    rcases pushRow_cases row with ⟨e, hrow, hpush⟩ | ⟨hrow, hpush⟩
    · refine ⟨e :: l, by simp [hpush, hl], fun id e' => ?_⟩
      simp only [hrow, forall_eq, ← hfind, List.find?_cons, UInt16.toNat_inj]
      by_cases hid : e.id = id
      · simp only [hid, decide_true, Option.some.injEq, ne_eq, not_true, false_and, or_false]
        constructor
        · rintro rfl
          exact ⟨rfl, hid⟩
        · exact fun h => h.1.symm
      · simp only [hid, decide_false, ne_eq, not_false_eq_true, true_and]
        constructor
        · exact .inr
        · rintro (⟨rfl, hid'⟩ | h)
          · exact absurd hid' hid
          · exact h
    · exact ⟨l, by simp [hpush, hl], by simp [hrow, hfind]⟩

/-! ### Searching -/

theorem lookup_eq {registry : List InfoElement}
    (h : registry.Pairwise fun e e' => e.id.toNat < e'.id.toNat) (id : UInt16) :
    lookup registry id = .ok (registry.find? fun e => e.id.toNat = id.toNat) := by
  rcases binarySearchBy_cases (ε := Empty) h id.toNat with ⟨i, e, hi, hfind, hr⟩ | ⟨⟨i, hr⟩, hfind⟩
  · rw [lookup, hr, Outcome.ok_bind, hfind]
    simp only [index_eq hi, Outcome.ok_bind, Outcome.pure_eq]
  · rw [lookup, hr, Outcome.ok_bind, hfind]
    rfl

/-- The table is strictly increasing by id, `lookup` finds an element for exactly the ids that some
row describes an element of, and finds that of the first such row. -/
theorem registry_exact (rows : List (List String)) :
    ∃ registry, elements rows = .ok registry ∧ registry.Pairwise (fun e e' => e.id < e'.id) ∧
      ∀ id, (∃ r, lookup registry id = .ok r) ∧
        (∀ e, lookup registry id = .ok (some e) ↔ FirstRow (rows.drop 1) id e) ∧
        ((∃ e, lookup registry id = .ok (some e)) ↔
          ∃ row ∈ rows.drop 1, ∃ e, Describes row e ∧ e.id = id) := by
  obtain ⟨l, hl, hfind⟩ := foldlM_pushRow (rows.drop 1)
  have hsorted := pairwise_dedupByKey (fun e : InfoElement => e.id.toNat)
    (pairwise_sortByKey (fun e => e.id.toNat) l)
  refine ⟨dedupByKey _ (sortByKey _ l), by rw [elements, hl]; rfl, hsorted, fun id => ?_⟩
  rw [lookup_eq hsorted, find?_dedupByKey, find?_sortByKey]
  simp only [Outcome.ok.injEq, hfind, implies_true, true_and, exists_eq']
  constructor
  · rintro ⟨e, before, row, after, hrows, hrow, hid, _⟩
    exact ⟨row, by simp [hrows], e, hrow, hid⟩
  · rintro ⟨row, hmem, e, hrow, rfl⟩
    exact exists_firstRow hmem hrow

end IpfixParser

import Mathlib.Data.List.Basic
import IpfixParser.Model.Csv

/-!
# Writing CSV files

A table with the choices a writer has: to quote a field or not, to end a line with LF or CRLF, to
end the last line or not. `CsvFile.text` is what is written, and `parse_csv` reads the table back
from it (`CsvFile.parseCsv_text`).
-/

namespace IpfixParser

/-! ### Files -/

/-- The characters that only a quoted field can hold. -/
def csvSpecial : List Char := [',', '"', '\r', '\n']

/-- A field of a row. -/
structure CsvField where
  value : String
  quoted : Bool
  plain : quoted = false → ∀ c ∈ value.toList, c ∉ csvSpecial

/-- A character between quotes. -/
def quoteChar (c : Char) : List Char := if c = '"' then ['"', '"'] else [c]

/-- A field as it is written. -/
def CsvField.text (f : CsvField) : List Char :=
  if f.quoted then '"' :: (f.value.toList.flatMap quoteChar ++ ['"']) else f.value.toList

/-- LF or CRLF. -/
inductive LineEnd where
  | lf
  | crlf

/-- A line end as it is written. -/
def LineEnd.text : LineEnd → List Char
  | lf => ['\n']
  | crlf => ['\r', '\n']

/-- A row of a table, and its line end. -/
structure CsvRow where
  fields : List CsvField
  nonempty : fields ≠ []
  lineEnd : LineEnd

namespace CsvRow

/-- The row of the table. -/
def values (row : CsvRow) : List String := row.fields.map CsvField.value

/-- A row as it is written, without its line end. -/
def line (row : CsvRow) : List Char := [','].intercalate (row.fields.map CsvField.text)

end CsvRow

/-- The rows as they are written, the last one without its line end where `openEnd`. -/
def linesText (openEnd : Bool) : List CsvRow → List Char
  | [] => []
  | [row] => row.line ++ if openEnd then [] else row.lineEnd.text
  | row :: rows => row.line ++ (row.lineEnd.text ++ linesText openEnd rows)

/-- A table as it is written. A last row of one empty field needs its line end, without which it is
no row. -/
structure CsvFile where
  rows : List CsvRow
  openEnd : Bool
  visible : openEnd = true → ∀ row ∈ rows.getLast?, row.values ≠ [""]

namespace CsvFile

/-- The table. -/
def table (file : CsvFile) : List (List String) := file.rows.map CsvRow.values

/-- The file. -/
def text (file : CsvFile) : String := .ofList (linesText file.openEnd file.rows)

theorem exists_table_iff (table : List (List String)) :
    (∃ file : CsvFile, file.table = table) ↔ ∀ row ∈ table, row ≠ [] := by
  constructor
  · rintro ⟨file, rfl⟩ values hvalues
    obtain ⟨row, _, rfl⟩ := List.mem_map.mp hvalues
    simpa [CsvRow.values] using row.nonempty
  · intro h
    have hrows : ∃ rows : List CsvRow, rows.map CsvRow.values = table := by
      induction table with
      | nil => exact ⟨[], rfl⟩
      | cons values table ih =>
        obtain ⟨hvalues, htable⟩ := List.forall_mem_cons.mp h
        obtain ⟨rows, rfl⟩ := ih htable
        let fields : List CsvField := values.map fun value => ⟨value, true, by simp⟩
        have hfields : fields.map CsvField.value = values := by
          rw [List.map_map]
          exact List.map_id values
        refine ⟨⟨fields, by simpa [fields] using hvalues, .lf⟩ :: rows, ?_⟩
        rw [List.map_cons, CsvRow.values, hfields]
    obtain ⟨rows, rfl⟩ := hrows
    exact ⟨⟨rows, false, by simp⟩, rfl⟩

end CsvFile

/-! ### Reading fields -/

section
variable (rows : List (List String)) (row : List String) (field : List Char)

theorem csvLoop_plain {text : List Char} (h : ∀ c ∈ text, c ∉ csvSpecial) (rest : List Char) :
    csvLoop ⟨rows, row, field, false⟩ (text ++ rest) =
      csvLoop ⟨rows, row, field ++ text, false⟩ rest := by
  induction text generalizing field with
  | nil => simp
  | cons c text ih =>
    obtain ⟨hc, htext⟩ := List.forall_mem_cons.mp h
    obtain ⟨hcomma, hquote, hcr, hlf⟩ : c ≠ ',' ∧ c ≠ '"' ∧ c ≠ '\r' ∧ c ≠ '\n' := by
      simpa [csvSpecial] using hc
    have hpush : csvLoop ⟨rows, row, field, false⟩ (c :: (text ++ rest)) =
        csvLoop ⟨rows, row, field ++ [c], false⟩ (text ++ rest) := by
      rw [csvLoop.eq_def]
      simp [CsvState.push]
    rw [List.cons_append, hpush, ih _ htext, List.append_assoc, List.singleton_append]

theorem csvLoop_quoted (text : List Char) {rest : List Char} (hrest : rest.head? ≠ some '"') :
    csvLoop ⟨rows, row, field, true⟩ (text.flatMap quoteChar ++ '"' :: rest) =
      csvLoop ⟨rows, row, field ++ text, false⟩ rest := by
  induction text generalizing field with
  | nil =>
    cases rest with
    | nil => simp [csvLoop]
    | cons c rest =>
      have hc : c ≠ '"' := by simpa using hrest
      rw [List.flatMap_nil, List.nil_append, csvLoop.eq_def]
      simp [hc]
  | cons c text ih =>
    have hpush : csvLoop ⟨rows, row, field, true⟩
        (quoteChar c ++ (text.flatMap quoteChar ++ '"' :: rest)) =
          csvLoop ⟨rows, row, field ++ [c], true⟩ (text.flatMap quoteChar ++ '"' :: rest) := by
      rw [quoteChar]
      by_cases hc : c = '"'
      · rw [if_pos hc, hc]
        rfl
      · rw [if_neg hc, List.singleton_append, csvLoop.eq_def]
        simp [CsvState.push, hc]
    rw [List.flatMap_cons, List.append_assoc, hpush, ih, List.append_assoc, List.singleton_append]

theorem csvLoop_field (f : CsvField) {rest : List Char} (hrest : rest.head? ≠ some '"') :
    csvLoop ⟨rows, row, [], false⟩ (f.text ++ rest) =
      csvLoop ⟨rows, row, f.value.toList, false⟩ rest := by
  rw [CsvField.text]
  split_ifs with hquoted
  · have hopen : ∀ text, csvLoop ⟨rows, row, [], false⟩ ('"' :: text) =
        csvLoop ⟨rows, row, [], true⟩ text := by
      intro text
      rw [csvLoop.eq_def]
      rfl
    rw [List.cons_append, hopen, List.append_assoc, List.singleton_append,
      csvLoop_quoted rows row [] f.value.toList hrest, List.nil_append]
  · have hplain := f.plain (by simpa using hquoted)
    rw [csvLoop_plain rows row [] hplain, List.nil_append]

/-! ### Reading rows -/

theorem csvLoop_comma (rest : List Char) :
    csvLoop ⟨rows, row, field, false⟩ (',' :: rest) =
      csvLoop ⟨rows, row ++ [.ofList field], [], false⟩ rest := by
  rw [csvLoop.eq_def]
  rfl

theorem csvLoop_lineEnd (e : LineEnd) (rest : List Char) :
    csvLoop ⟨rows, row, field, false⟩ (e.text ++ rest) =
      csvLoop ⟨rows ++ [row ++ [.ofList field]], [], [], false⟩ rest := by
  cases e with
  | lf =>
    rw [LineEnd.text, List.singleton_append, csvLoop.eq_def]
    rfl
  | crlf =>
    rw [LineEnd.text, List.cons_append, csvLoop.eq_def]
    rfl

theorem csvLoop_fields (init : List CsvField) (last : CsvField) {rest : List Char}
    (hrest : rest.head? ≠ some '"') :
    csvLoop ⟨rows, row, [], false⟩
        ([','].intercalate ((init ++ [last]).map CsvField.text) ++ rest) =
      csvLoop ⟨rows, row ++ init.map CsvField.value, last.value.toList, false⟩ rest := by
  induction init generalizing row with
  | nil => simpa using csvLoop_field rows row last hrest
  | cons f init ih =>
    have hline : [','].intercalate ((f :: init ++ [last]).map CsvField.text) =
        f.text ++ ',' :: [','].intercalate ((init ++ [last]).map CsvField.text) := by
      rw [List.cons_append, List.map_cons, List.intercalate_cons_of_ne_nil (by simp)]
      simp
    rw [hline, List.append_assoc, csvLoop_field _ _ _ (by simp), List.cons_append, csvLoop_comma, ih,
      String.ofList_toList]
    simp

end

theorem CsvRow.csvLoop_line (row : CsvRow) (rows : List (List String)) :
    ∃ init last, row.values = init ++ [last] ∧
      ∀ {rest : List Char}, rest.head? ≠ some '"' →
        csvLoop ⟨rows, [], [], false⟩ (row.line ++ rest) =
          csvLoop ⟨rows, init, last.toList, false⟩ rest := by
  obtain ⟨init, last, hfields⟩ := (List.eq_nil_or_concat' row.fields).resolve_left row.nonempty
  refine ⟨init.map CsvField.value, last.value, ?_, fun hrest => ?_⟩
  · simp [values, hfields]
  · rw [line, hfields, csvLoop_fields _ _ _ _ hrest, List.nil_append]

theorem CsvRow.csvLoop_row (row : CsvRow) (rows : List (List String)) (rest : List Char) :
    csvLoop ⟨rows, [], [], false⟩ (row.line ++ (row.lineEnd.text ++ rest)) =
      csvLoop ⟨rows ++ [row.values], [], [], false⟩ rest := by
  obtain ⟨init, last, hvalues, hline⟩ := row.csvLoop_line rows
  have hend : (row.lineEnd.text ++ rest).head? ≠ some '"' := by
    cases row.lineEnd <;> simp [LineEnd.text]
  rw [hline hend, csvLoop_lineEnd, String.ofList_toList, hvalues]

/-! ### Reading files -/

/-- `parse_csv` after its loop. -/
def CsvState.finish (st : CsvState) : List (List String) :=
  if st.field ≠ [] ∨ st.row ≠ [] then st.endRow.rows else st.rows

theorem parseCsv_eq (text : List Char) :
    parseCsv (.ofList text) = (csvLoop ⟨[], [], [], false⟩ text).finish := by
  rw [parseCsv, String.toList_ofList]
  rfl

theorem finish_open {init : List String} {last : String} (h : init ++ [last] ≠ [""])
    (rows : List (List String)) :
    CsvState.finish ⟨rows, init, last.toList, false⟩ = rows ++ [init ++ [last]] := by
  have hrow : last.toList ≠ [] ∨ init ≠ [] := by
    by_contra hnone
    obtain ⟨hlast, hinit⟩ : last = "" ∧ init = [] := by simpa using hnone
    exact h (by rw [hinit, hlast, List.nil_append])
  rw [CsvState.finish, if_pos hrow, CsvState.endRow, CsvState.endField, String.ofList_toList]

theorem finish_linesText {openEnd : Bool} {rows : List CsvRow}
    (h : openEnd = true → ∀ row ∈ rows.getLast?, row.values ≠ [""]) (before : List (List String)) :
    (csvLoop ⟨before, [], [], false⟩ (linesText openEnd rows)).finish =
      before ++ rows.map CsvRow.values := by
  induction rows generalizing before with
  | nil => simp [linesText, csvLoop, CsvState.finish]
  | cons row rows ih =>
    cases rows with
    | nil =>
      cases openEnd with
      | false =>
        have hrow := row.csvLoop_row before []
        rw [List.append_nil] at hrow
        simp [linesText, hrow, csvLoop, CsvState.finish]
      | true =>
        obtain ⟨init, last, hvalues, hline⟩ := row.csvLoop_line before
        have hopen : init ++ [last] ≠ [""] := hvalues ▸ h rfl row (by simp)
        rw [linesText, if_pos rfl, hline (by simp), csvLoop, finish_open hopen, ← hvalues]
        rfl
    | cons row' rows =>
      have hlines : linesText openEnd (row :: row' :: rows) =
          row.line ++ (row.lineEnd.text ++ linesText openEnd (row' :: rows)) := rfl
      rw [hlines, row.csvLoop_row, ih (by simpa using h), List.append_assoc]
      rfl

/-- `parse_csv` reads back every table that a file was written for. -/
theorem CsvFile.parseCsv_text (file : CsvFile) : parseCsv file.text = file.table := by
  rw [text, parseCsv_eq, finish_linesText file.visible, List.nil_append, table]

example : parseCsv "a,\"b\"\"\r\n,\"\r\n\n\"\"," = [["a", "b\"\r\n,"], [""], ["", ""]] := by decide +kernel

end IpfixParser

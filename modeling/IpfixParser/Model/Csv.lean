import Mathlib.Data.List.Basic

/-!
# CSV files

`parse_csv` of `build.rs`: the reader of the registry's CSV file. The characters that are left of the
iterator `chars` are a list, of which `peek` is the head.
-/

namespace IpfixParser

/-- The variables of `parse_csv`. A field is the list of its characters until it is complete. -/
structure CsvState where
  rows : List (List String)
  row : List String
  field : List Char
  inQuotes : Bool
  deriving Repr, DecidableEq

namespace CsvState

/-- `field.push(c)`. -/
def push (st : CsvState) (c : Char) : CsvState := { st with field := st.field ++ [c] }

/-- `row.push(take(&mut field))`. -/
def endField (st : CsvState) : CsvState :=
  { st with row := st.row ++ [.ofList st.field], field := [] }

/-- `row.push(take(&mut field))`, `rows.push(take(&mut row))`. -/
def endRow (st : CsvState) : CsvState :=
  { st.endField with rows := st.rows ++ [st.endField.row], row := [] }

end CsvState

/-- The loop of `parse_csv`. -/
def csvLoop : CsvState → List Char → CsvState
  | st, [] => st
  | st, c :: chars =>
    if st.inQuotes then
      if c = '"' then
        match chars with
        | '"' :: chars => csvLoop (st.push '"') chars
        | chars => csvLoop { st with inQuotes := false } chars
      else csvLoop (st.push c) chars
    else
      match c with
      | '"' => csvLoop { st with inQuotes := true } chars
      | ',' => csvLoop st.endField chars
      | '\r' =>
        match chars with
        | '\n' :: chars => csvLoop st.endRow chars
        | chars => csvLoop st.endRow chars
      | '\n' => csvLoop st.endRow chars
      | _ => csvLoop (st.push c) chars

/-- `parse_csv`. -/
def parseCsv (input : String) : List (List String) :=
  let st := csvLoop ⟨[], [], [], false⟩ input.toList
  if st.field ≠ [] ∨ st.row ≠ [] then st.endRow.rows else st.rows

end IpfixParser

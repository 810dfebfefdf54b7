import IpfixParser.Lib.Search
import IpfixParser.Model.Record

/-!
# The Information Element registry

`build.rs` and `src/ie/mod.rs`: the build script turns the rows of the IANA registry's CSV file into
the table of elements, which `lookup` searches. The script writes the table out as Rust source, an
element's data type and semantic as the names of enum variants; here it is the table itself.
-/

namespace IpfixParser

open Lib

/-! ### `ie/mod.rs`: the types -/

/-- `DataType`. -/
inductive DataType where
  | octetArray
  | unsigned8
  | unsigned16
  | unsigned32
  | unsigned64
  | signed8
  | signed16
  | signed32
  | signed64
  | float32
  | float64
  | boolean
  | macAddress
  | string
  | dateTimeSeconds
  | dateTimeMilliseconds
  | dateTimeMicroseconds
  | dateTimeNanoseconds
  | ipv4Address
  | ipv6Address
  | basicList
  | subTemplateList
  | subTemplateMultiList
  deriving Repr, DecidableEq

/-- `Semantic`. -/
inductive Semantic where
  | default
  | quantity
  | totalCounter
  | deltaCounter
  | identifier
  | flags
  | list
  | snmpCounter
  | snmpGauge
  deriving Repr, DecidableEq

/-- `InfoElement`, and the `Element` of the build script. -/
structure InfoElement where
  id : UInt16
  name : String
  dataType : DataType
  semantic : Option Semantic
  deriving Repr, DecidableEq

/-! ### Strings -/

/-- `char::is_whitespace`. -/
def isWhitespace (c : Char) : Bool :=
  c.toNat ∈ [0x20, 0x85, 0xa0, 0x1680, 0x2028, 0x2029, 0x202f, 0x205f, 0x3000] ∨
    0x9 ≤ c.toNat ∧ c.toNat ≤ 0xd ∨ 0x2000 ≤ c.toNat ∧ c.toNat ≤ 0x200a

/-- `str::trim`. -/
def trim (s : String) : String :=
  .ofList (((s.toList.dropWhile isWhitespace).reverse.dropWhile isWhitespace).reverse)

/-- `str::eq_ignore_ascii_case`. -/
def eqIgnoreAsciiCase (s t : String) : Bool :=
  s.toList.map Char.toLower = t.toList.map Char.toLower

/-- The value of a digit. -/
def digitValue (c : Char) : Nat := c.toNat - 48

/-- One more digit of a `u16`; another character and a number out of range are errors. -/
def pushDigit (n : Nat) (c : Char) : Option Nat :=
  if c.isDigit ∧ n * 10 + digitValue c < 2 ^ 16 then some (n * 10 + digitValue c) else none

/-- `str::parse::<u16>`. -/
def parseU16 (s : String) : Option UInt16 :=
  let digits := match s.toList with
    | '+' :: digits => digits
    | digits => digits
  if digits = [] then none else (digits.foldlM pushDigit 0).map UInt16.ofNat

/-! ### `build.rs` -/

/-- `data_type_variant`. -/
def dataTypeVariant : String → Option DataType
  | "octetArray" => some .octetArray
  | "unsigned8" => some .unsigned8
  | "unsigned16" => some .unsigned16
  | "unsigned32" => some .unsigned32
  | "unsigned64" => some .unsigned64
  | "signed8" => some .signed8
  | "signed16" => some .signed16
  | "signed32" => some .signed32
  | "signed64" => some .signed64
  | "float32" => some .float32
  | "float64" => some .float64
  | "boolean" => some .boolean
  | "macAddress" => some .macAddress
  | "string" => some .string
  | "dateTimeSeconds" => some .dateTimeSeconds
  | "dateTimeMilliseconds" => some .dateTimeMilliseconds
  | "dateTimeMicroseconds" => some .dateTimeMicroseconds
  | "dateTimeNanoseconds" => some .dateTimeNanoseconds
  | "ipv4Address" => some .ipv4Address
  | "ipv6Address" => some .ipv6Address
  | "basicList" => some .basicList
  | "subTemplateList" => some .subTemplateList
  | "subTemplateMultiList" => some .subTemplateMultiList
  | _ => none

/-- `semantic_variant`. -/
def semanticVariant : String → Option Semantic
  | "default" => some .default
  | "quantity" => some .quantity
  | "totalCounter" => some .totalCounter
  | "deltaCounter" => some .deltaCounter
  | "identifier" => some .identifier
  | "flags" => some .flags
  | "list" => some .list
  | "snmpCounter" => some .snmpCounter
  | "snmpGauge" => some .snmpGauge
  | _ => none

/-- The body of the loop over the rows: the elements so far, with that of a usable row. -/
def pushRow (elements : List InfoElement) (row : List String) : Outcome Empty (List InfoElement) :=
  if row.length < 5 then .ok elements
  else do
    let idField := trim (← index row 0)
    let name := trim (← index row 1)
    let dtype := trim (← index row 2)
    let semantic := trim (← index row 3)
    let status := trim (← index row 4)
    if name = "" ∨ dtype = "" then return elements
    if ¬eqIgnoreAsciiCase status "current" then return elements
    let some id := parseU16 idField | return elements
    let some dtVariant := dataTypeVariant dtype | return elements
    let semVariant := semanticVariant semantic
    return elements ++ [⟨id, name, dtVariant, semVariant⟩]

/-- `main`, from the parsed rows to the elements written out. -/
def elements (rows : List (List String)) : Outcome Empty (List InfoElement) := do
  let elements ← (rows.drop 1).foldlM pushRow []
  return dedupByKey (fun e => e.id.toNat) (sortByKey (fun e => e.id.toNat) elements)

/-- `str::replace` on the characters left, for a pattern that is not empty. Of these, the first `skip`
are the rest of a match. -/
def replaceChars (pattern new : List Char) : Nat → List Char → List Char
  | _, [] => []
  | skip + 1, _ :: chars => replaceChars pattern new skip chars
  | 0, c :: chars =>
    if pattern.isPrefixOf (c :: chars) then new ++ replaceChars pattern new (pattern.length - 1) chars
    else c :: replaceChars pattern new 0 chars

/-- `str::replace`. -/
def replace (s pattern new : String) : String :=
  .ofList (replaceChars pattern.toList new.toList 0 s.toList)

/-- `normalized.to_shouty_snake_case()`. The conversion is that of the `heck` crate. -/
def shoutyName (toShoutySnakeCase : String → String) (e : InfoElement) : String :=
  let normalized := replace (replace e.name "IPv4" "Ipv4") "IPv6" "Ipv6"
  toShoutySnakeCase normalized

/-- The body of the loop over the elements: `seen_names`, and the names and values of the constants
written. -/
def writeConstant (toShoutySnakeCase : String → String) (acc : List String × List (String × UInt16))
    (e : InfoElement) : List String × List (String × UInt16) :=
  let (seenNames, constants) := acc
  let name := shoutyName toShoutySnakeCase e
  if name ∈ seenNames then (seenNames, constants ++ [(name ++ "_" ++ toString e.id.toNat, e.id)])
  else (name :: seenNames, constants ++ [(name, e.id)])

/-- `main`, the constants of the module `id` for the elements written out. -/
def idConstants (toShoutySnakeCase : String → String) (elements : List InfoElement) :
    List (String × UInt16) :=
  (elements.foldl (writeConstant toShoutySnakeCase) ([], [])).2

/-! ### `ie/mod.rs`: searching -/

/-- `lookup`, with `REGISTRY` as an argument. -/
def lookup (registry : List InfoElement) (id : UInt16) : Outcome Empty (Option InfoElement) := do
  match ← binarySearchBy (fun e => compare e.id.toNat id.toNat) registry with
  | .ok i =>
    let e ← index registry i
    return some e
  | .error _ => return none

/-- `lookup_field`. -/
def lookupField (registry : List InfoElement) (field : FieldValue) : Outcome Empty (Option InfoElement) :=
  if field.enterpriseNumber.isSome then .ok none else lookup registry field.informationElementId

end IpfixParser

import SysAnalyzer.Query.ResultTable

/-!
# Reading query results in the interface

`convertJSON` decodes the bytes of a result, drops the first line, rewrites the
rest and hands it to `JSON.parse`.  The rewriting removes tabs, line breaks and
bars and doubles every backslash; when the text is refused, all units that are
not printable ASCII become `?` and the text is parsed once more.

The backslashes that `FormatString` wrote to escape quotes and backslashes are
doubled like any other.  A quote inside a text therefore ends its string, and a
backslash comes back as two.
-/

namespace SysAnalyzer.Query

open Foundation

/-! ## The model -/

/-- An exception of the interface. -/
inductive JsError where
  | syntaxError
  | typeError

/-- An object: its fields in the order of their first assignment. -/
abbrev JsObject := List (UnitString × Option Json)

def units (text : String) : UnitString := utf16 text.toList

/-- The character class of the first regular expression. -/
def isRemoved (unit : UInt16) : Bool := unit = 0x09 || unit = 0x7C || unit = 0x0D || unit = 0x0A

/-- `.replace(/[\t|\r|\n]/g, '')`. -/
def removeSeparators (text : UnitString) : UnitString := text.filter fun unit => !isRemoved unit

/-- `.replace(/\\/g, '\\\\')`. -/
def doubleBackslashes (text : UnitString) : UnitString :=
  text.flatMap fun unit => if unit = 0x5C then [0x5C, 0x5C] else [unit]

def translateJsonString (text : UnitString) : UnitString :=
  doubleBackslashes (removeSeparators text)

/-- `.replace(/[^\x20-\x7E]/g, '?')`. -/
def replaceUnprintable (text : UnitString) : UnitString :=
  text.map fun unit => if 0x20 ≤ unit ∧ unit ≤ 0x7E then unit else 0x3F

/-- `string.substring(string.indexOf('\n') + 1)`. -/
def behindFirstLine (text : UnitString) : UnitString :=
  match text.dropWhile (· != 0x0A) with
  | [] => text
  | _ :: rest => rest

/-- A property of a parsed object; the last of several members counts. -/
def property (members : List (UnitString × Json)) (name : UnitString) : Option Json :=
  (members.reverse.find? fun member => member.1 = name).map Prod.snd

/-- `object[key] = value`; `__proto__` is a setter and makes no field. -/
def setField (object : JsObject) (key : UnitString) (value : Option Json) : JsObject :=
  if key = units "__proto__" then object
  else if key ∈ object.map Prod.fst then
    object.map fun field => if field.1 = key then (key, value) else field
  else object ++ [(key, value)]

/-- The object of one row: `object[columns[j]] = values[i][j]` for every `j`. -/
def rowObject (columns : List UnitString) (row : List Json) : JsObject :=
  columns.zipIdx.foldl (fun object (name, index) => setField object name row[index]?) []

def asString : Json → Option UnitString
  | .string value => some value
  | _ => none

def asArray : Json → Option (List Json)
  | .array elements => some elements
  | _ => none

def tableOf (parsed : Json) : Option (List UnitString × List (List Json)) :=
  match parsed with
  | .object members =>
    ((property members (units "columns")).bind asArray).bind fun columns =>
      ((property members (units "values")).bind asArray).bind fun values =>
        (columns.mapM asString).bind fun names =>
          (values.mapM asArray).map fun rows => (names, rows)
  | _ => none

section

-- what the loops of `convertJSON` do with a value that is not a table: missing
-- properties, strings and numbers in the place of arrays
variable (irregular : Json → Except JsError (List JsObject))

/-- The loops of `convertJSON`. -/
def tableObjects (parsed : Json) : Except JsError (List JsObject) :=
  match tableOf parsed with
  | some (columns, rows) => .ok (rows.map (rowObject columns))
  | none => irregular parsed

/-- `convertJSON` on an `ArrayBuffer` or on an array, which it returns. -/
def convertJSON (arrBuf : Bytes ⊕ List JsObject) : Except JsError (List JsObject) :=
  match arrBuf with
  | .inr array => .ok array
  | .inl buffer =>
    let string := behindFirstLine (TextDecoder.decode buffer)
    if string = [] then .ok []
    else
      let tansStr := translateJsonString string
      match Json.parse tansStr with
      | some parsed => tableObjects irregular parsed
      | none =>
        match Json.parse (replaceUnprintable tansStr) with
        | some parsed => tableObjects irregular parsed
        | none => .error .syntaxError

end

end SysAnalyzer.Query

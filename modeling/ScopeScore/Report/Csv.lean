import ScopeScore.Report.Frame

set_option autoImplicit false

/-! # Frames as comma-separated records

A record is a line of fields with commas between them. A field that holds a comma, a quotation mark
or a line feed stands between quotation marks, and a quotation mark inside it is written twice.
-/

namespace ScopeScore.Csv

/-- Has this character a meaning of its own in a record? -/
def isSpecial (c : Char) : Bool := c == ',' || c == '"' || c == '\n'

/-- The inside of a quoted field. -/
def doubled (cs : List Char) : List Char := cs.flatMap fun c => if c = '"' then ['"', '"'] else [c]

/-- One field. -/
def field (cs : List Char) : List Char :=
  if cs.any isSpecial then '"' :: doubled cs ++ ['"'] else cs

/-- One record, with its line feed. -/
def record (fields : List (List Char)) : List Char :=
  List.intercalate [','] (fields.map field) ++ ['\n']

/-- An amount as a field; what is no number is left out. -/
def amount : Amount → List Char
  | .real x => if x.isNaN then [] else (Amount.real x).text.toList
  | a => a.text.toList

/-- The fields of a row. -/
def fields (row : Row) : List (List Char) :=
  [row.file.toList, row.signature.toList, (toString row.location).toList,
    (toString row.depth).toList, amount row.score]

/-- A frame as records, after one with the names of the columns. -/
def render (frame : Frame) : String :=
  let header := Row.columns.map String.toList
  String.ofList ((header :: frame.rows.map fields).flatMap record)

end ScopeScore.Csv

import ScopeScore.Decimal.Reader
import ScopeScore.Source

set_option autoImplicit false

/-! # Listings of trees

Parsing is the work of another program. It hands a tree over as a text: a first line that says
`clean` or `patched`, and then one line for each node, a parent before its children. The fields of
a line are divided by tabs:

* the position of the parent, counted from 0, or `-` for the root;
* the kind;
* `named` or `token`;
* the field under which the parent holds the node, or `-`;
* the row on which it starts, counted from 0;
* its text in hexadecimal, or `-`.

`Parsed.ofListing?` reads such a text, and `Parser.ofTrees` is the parser that knows some texts with
their trees.
-/

namespace ScopeScore

/-- The number that decimal digits spell. -/
def readPosition? (cs : List Char) : Option Nat :=
  if cs.isEmpty || !cs.all Char.isDigit then none else some (Decimal.digitsValue cs)

/-- The value of a hexadecimal digit. -/
def hexValue? (c : Char) : Option Nat :=
  "0123456789abcdef".toList.idxOf? c

/-- The octets that pairs of hexadecimal digits spell. -/
def readOctets? : List Char → Option (List UInt8)
  | [] => some []
  | [_] => none
  | a :: b :: cs => do
      let high ← hexValue? a
      let low ← hexValue? b
      return (16 * high + low).toUInt8 :: (← readOctets? cs)

/-- A field that may be left out. -/
def readOptional? {α : Type} (read : List Char → Option α) (cs : List Char) : Option (Option α) :=
  if cs = ['-'] then some none else (read cs).map some

/-- One line of a listing. -/
def Entry.ofLine? (line : List Char) : Option Entry :=
  match Text.splitAt '\t' line with
  | [parent, kind, sort, field, row, text] => do
      let parent ← readOptional? readPosition? parent
      let named ←
        if sort = "named".toList then some true
        else if sort = "token".toList then some false
        else none
      let field ← readOptional? (fun cs => some (String.ofList cs)) field
      let row ← readPosition? row
      let text ← readOptional? readOctets? text
      return { parent, kind := String.ofList kind, named, field, row, text }
  | _ => none

/-- Reads a listing. A line feed may end the last line. -/
def Parsed.ofListing? (text : String) : Option Parsed := do
  match Text.splitAt '\n' text.toList with
  | first :: lines =>
      let patched ←
        if first = "clean".toList then some false
        else if first = "patched".toList then some true
        else none
      let lines := if lines.getLast? == some [] then lines.dropLast else lines
      let root ← (Forest.ofEntries (← lines.mapM Entry.ofLine?)).node? 0
      return { root, patched }
  | [] => none

/-- The tree that stands in for that of a text which nobody parsed: an empty program that had to be
patched up. -/
def Parsed.unknown : Parsed where
  root := .node
    { id := 0, kind := Kind.program, named := true, field := none, row := 0, text := none } []
  patched := true

/-- The parser that knows these texts. -/
def Parser.ofTrees (trees : List (String × Parsed)) : Parser := fun text =>
  (trees.lookup text).getD Parsed.unknown

end ScopeScore

import ScopeScore.Report.Frame

set_option autoImplicit false

/-! # Frames as tables

A table has a line for the column names and one for each row, every cell set flush right and one
blank between columns. The names of the columns of numbers begin with a blank, which counts for
their width.

Binary64 scores are shown alike: all with the same number of places, the fewest that lose none of
the six places to which they are rounded, or, if that gets too long, all with an exponent. Scores of
a mixed frame are shown each for itself.
-/

namespace ScopeScore.Table

/-! ## Cells -/

/-- Text on one line: tab, line feed and carriage return are shown by their letters. -/
def lineText (s : String) : List Char :=
  s.toList.flatMap fun c =>
    if c = '\t' then ['\\', 't']
    else if c = '\n' then ['\\', 'n']
    else if c = '\r' then ['\\', 'r']
    else [c]

/-- The places to which scores are rounded. -/
def places : Nat := 6

/-- The greatest width at which large scores are written out. -/
def writtenOutWidth : Nat := 12

/-- A score on its way to its cell: written out with all places, or a word that is left alone. -/
structure Figure where
  text : List Char
  isNumber : Bool
deriving DecidableEq, Repr

def Figure.endsWithZero (f : Figure) : Bool := f.text.getLast? == some '0'

/-- Drops the last character of a number. -/
def Figure.shorten (f : Figure) : Figure :=
  if f.isNumber then { f with text := f.text.dropLast } else f

/-- Drops the last place of all numbers as long as it is zero in all of them. -/
def trimPlaces : Nat → List Figure → List Figure
  | 0, figures => figures
  | n + 1, figures =>
      let numbers := figures.filter Figure.isNumber
      if !numbers.isEmpty && numbers.all Figure.endsWithZero then
        trimPlaces n (figures.map Figure.shorten)
      else figures

/-- A number with all places. -/
def written (x : Float) : Figure :=
  match Decimal.Parts.of x with
  | .nan => { text := "NaN".toList, isNumber := false }
  | .infinite negative =>
      { text := Decimal.signOf negative ++ "inf".toList, isNumber := false }
  | .finite negative m q =>
      { text := Decimal.signOf negative ++ Decimal.fixed places m q, isNumber := true }

/-- A number with as many digits after the point, and an exponent. -/
def withExponent (x : Float) : Figure :=
  match Decimal.Parts.of x with
  | .finite negative m q =>
      let (ds, exponent) := Decimal.rounded (places + 1) m q
      { text := Decimal.signOf negative ++ Decimal.withExponent 2 ds exponent, isNumber := false }
  | _ => written x

/-- The cells of binary64 scores. One place is always kept, so five can be dropped. -/
def realCells (xs : List Float) : List (List Char) :=
  let plain := (trimPlaces (places - 1) (xs.map written)).map Figure.text
  let tooLong := plain.any fun cell => writtenOutWidth < cell.length
  let someLarge := xs.any fun x => x.abs > 1e6
  let someSmall := xs.any fun x => x.abs < 1e-6 && x.abs > 0
  if someSmall || (tooLong && someLarge) then xs.map fun x => (withExponent x).text else plain

/-- The cell of a score that stands alone: its own zeros at the end are dropped, and a binary64
number without a minus begins with a blank. -/
def loneCell : Amount → List Char
  | .int n => (toString n).toList
  | .real x =>
      let cell := Decimal.trimPlaces (written x).text
      if x.isNaN || cell.head? == some '-' then cell else ' ' :: cell

/-- The cells of scores of one sort. -/
def scoreCells : ScoreSort → List Amount → List (List Char)
  | .words, scores => scores.map fun a => a.text.toList
  | .reals, scores => realCells (scores.map Amount.rounded)
  | .mixed, scores => scores.map loneCell

/-! ## Columns and lines -/

/-- A column: its name and its cells. -/
structure Column where
  header : List Char
  cells : List (List Char)
deriving DecidableEq, Repr

/-- The width of the widest cell, counted in characters. -/
def Column.width (c : Column) : Nat :=
  (c.header :: c.cells).foldl (fun w cell => max w cell.length) 0

/-- Sets a cell flush right. -/
def flushRight (width : Nat) (cell : List Char) : List Char :=
  List.replicate (width - cell.length) ' ' ++ cell

/-- All lines of a column, the header first, of one width. -/
def Column.lines (c : Column) : List (List Char) :=
  (c.header :: c.cells).map (flushRight c.width)

def textColumn (name : String) (cells : List String) : Column :=
  { header := name.toList, cells := cells.map lineText }

def numberColumn (name : String) (cells : List (List Char)) : Column :=
  { header := ' ' :: name.toList, cells }

/-- The column of scores. Only a column of one kind of numbers is headed like one. -/
def scoreColumn (sort : ScoreSort) (scores : List Amount) : Column :=
  let cells := scoreCells sort scores
  if sort = .mixed then { header := "score".toList, cells } else numberColumn "score" cells

/-- The columns of a frame. -/
def columns (frame : Frame) : List Column :=
  let rows := frame.rows
  [textColumn "file" (rows.map Row.file),
    textColumn "signature" (rows.map Row.signature),
    numberColumn "location" (rows.map fun row => (toString row.location).toList),
    numberColumn "depth" (rows.map fun row => (toString row.depth).toList),
    scoreColumn frame.sort (rows.map Row.score)]

/-- Puts columns side by side, one blank between them. -/
def sideBySide : List (List (List Char)) → List (List Char)
  | [] => []
  | [lines] => lines
  | lines :: more => List.zipWith (fun a b => a ++ ' ' :: b) lines (sideBySide more)

/-- What stands for a table without rows. -/
def emptyText : String := "No scopes to report."

/-- A frame as a table. -/
def render (frame : Frame) : String :=
  if frame.rows.isEmpty then emptyText
  else
    let lines := sideBySide ((columns frame).map Column.lines)
    String.ofList (List.intercalate ['\n'] lines)

end ScopeScore.Table

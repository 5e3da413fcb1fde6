import ScopeScore.Proofs.Report.CsvReader
import ScopeScore.Proofs.Report.JsonSpelling
import ScopeScore.Proofs.Report.Sorting
import ScopeScore.Report.Format

set_option autoImplicit false

/-! # Reports are lossless

What a program reads from a report is what stood in the frame, with any characters in names and
signatures and any integers beside them. A JSON report is read by `Json.read?`, and comma-separated
records by `Csv.read?`; neither of them knows how reports are written.

* **`Json.read?_render`**: a JSON report is an array with one object for each row (`Row.json`).
* **`Csv.read?_render`**: the records are the names of the columns and then one for each row
  (`Row.cells`), and `Row.ofCells?` makes the row of its record.
* **`Frame.reports_lossless`**: the two together.
-/

namespace ScopeScore

namespace Row

/-- A row as an object: every column with its value. -/
def json (row : Row) : Json.Value :=
  .object (columns.zip [.string row.file, .string row.signature, .number row.location 0,
    .number row.depth 0, .number row.points 0])

/-- A row as the fields of a record, integers in decimal. -/
def cells (row : Row) : List String :=
  [row.file, row.signature, toString row.location, toString row.depth, toString row.points]

/-- The row of a record. -/
def ofCells? : List String → Option Row
  | [file, signature, location, depth, score] => do
      let location ← Decimal.integer? location
      let depth ← Decimal.integer? depth
      let score ← Decimal.integer? score
      return { file, signature, location, depth, score := .int score }
  | _ => none

theorem score_eq {row : Row} (h : row.score.IsInt) : row.score = .int row.points := by
  obtain ⟨n, hn⟩ := h
  simp [points, hn, Amount.int?]

/-- A record tells its row. -/
theorem ofCells?_cells {row : Row} (h : row.score.IsInt) : ofCells? row.cells = some row := by
  simp only [cells, ofCells?, Decimal.integer?_toString, Option.bind_eq_bind, Option.bind_some,
    ← score_eq h]
  rfl

theorem mapM_ofCells? {rows : List Row} (h : ∀ row ∈ rows, row.score.IsInt) :
    (rows.map cells).mapM ofCells? = some rows := by
  induction rows with
  | nil => rfl
  | cons row rows ih =>
      rw [List.map_cons, List.mapM_cons, ofCells?_cells (h row List.mem_cons_self),
        ih fun r hr => h r (List.mem_cons_of_mem row hr)]
      rfl

end Row

/-! ## JSON -/

namespace Json

/-- A member of an object, with the text from which its value is read. -/
structure Member where
  name : String
  text : List Char
  value : Value
  lexes : Lexes text [.plain value]

namespace Member

def ofString (name s : String) : Member :=
  { name, text := string s, value := .string s, lexes := lexes_string s }

def ofInt (name : String) (n : Int) : Member :=
  { name, text := (toString n).toList, value := .number n 0, lexes := lexes_toString n }

/-- The members of a row with an integer score. -/
def ofRow (row : Row) : List Member :=
  [ofString "file" row.file, ofString "signature" row.signature, ofInt "location" row.location,
    ofInt "depth" row.depth, ofInt "score" row.points]

/-- A member on its line. -/
def line (m : Member) : List Char := member (m.name, m.text)

def tokens (m : Member) : List Token := memberTokens m.name [.plain m.value]

variable (m : Member)

theorem stops_line : Stops m.line := stops_cons rfl _

theorem lexes_line : Lexes m.line m.tokens := by
  have hname : Lexes ("    ".toList ++ string m.name) [.plain (.string m.name)] :=
    (lexes_string m.name).behind_blanks rfl
  have hvalue : Lexes (':' :: m.text) [.colon, .plain m.value] := by
    intro rest hrest
    rw [List.cons_append, tokens?_punctuation rfl rfl, m.lexes rest hrest, Option.map_map]
    rfl
  exact hname.append hvalue (stops_cons rfl _)

end Member

/-- The tokens of a row. -/
def objectTokens (row : Row) : List Token :=
  .openObject :: List.intercalate [.comma] ((Member.ofRow row).map Member.tokens) ++ [.closeObject]

theorem reads_objectTokens (row : Row) : Reads (objectTokens row) row.json :=
  reads_object Member.name (Member.ofRow row) fun m _ => reads_plain m.value

theorem stops_object (row : Row) : Stops (object row) := stops_cons rfl _

theorem lexes_object {row : Row} (h : row.score.IsInt) : Lexes (object row) (objectTokens row) := by
  have hlines : (members row).map member = (Member.ofRow row).map Member.line := by
    rw [members, Row.score_eq h]
    rfl
  have hopening : Lexes "  \x7b\n".toList [.openObject] :=
    (lexes_punctuation (b := ['\n']) rfl rfl rfl).behind_blanks (b := [' ', ' ']) rfl
  have hmembers := lexes_intercalate (b := ['\n']) rfl (Member.ofRow row)
    (fun m _ => m.lexes_line) (fun m _ => m.stops_line)
  have hclosing : Lexes "\n  \x7d".toList [.closeObject] :=
    (lexes_punctuation (b := []) rfl rfl rfl).behind_blanks (b := ['\n', ' ', ' ']) rfl
  unfold object
  rw [hlines]
  refine (hopening.append hmembers ?_).append hclosing (stops_cons rfl _)
  exact stops_intercalate _ fun m _ => m.stops_line

/-- **A JSON report is read back**: its rows in order, each an object of all columns. -/
theorem read?_render {frame : Frame} (h : ∀ row ∈ frame.rows, row.score.IsInt) :
    read? (render frame) = some (.array (frame.rows.map Row.json)) := by
  have hopening : Lexes "[\n".toList [.openArray] :=
    lexes_punctuation (b := ['\n']) rfl rfl rfl
  have hrows := lexes_intercalate (b := ['\n']) rfl frame.rows
    (fun row hrow => lexes_object (h row hrow)) (fun row _ => stops_object row)
  have hclosing : Lexes "\n]".toList [.closeArray] :=
    (lexes_punctuation (b := []) rfl rfl rfl).behind_blanks (b := ['\n']) rfl
  -- there may be no rows, but in front of them and behind them no number is cut
  have hstops := stops_intercalate (b := ['\n']) frame.rows fun row _ => stops_object row
  have htext := (hopening.append hrows hstops).append hclosing (stops_cons rfl _)
  exact read?_of_lexes htext (reads_array frame.rows fun row _ => reads_objectTokens row)

end Json

/-! ## Comma-separated records -/

namespace Csv

theorem map_ofList_fields {row : Row} (h : row.score.IsInt) :
    (fields row).map String.ofList = row.cells := by
  have hscore : amount row.score = (toString row.points).toList := by
    rw [Row.score_eq h]
    rfl
  simp [fields, Row.cells, hscore]

/-- **Records are read back**: the names of the columns, and the rows in order. -/
theorem read?_render {frame : Frame} (h : ∀ row ∈ frame.rows, row.score.IsInt) :
    read? (render frame) = some (Row.columns :: frame.rows.map Row.cells) := by
  have hrows : (frame.rows.map fields).map (fun fields => fields.map String.ofList) =
      frame.rows.map Row.cells := by
    rw [List.map_map]
    exact List.map_congr_left fun row hrow => map_ofList_fields (h row hrow)
  unfold render
  rw [read?_records, List.map_cons, hrows]
  · rfl
  · -- the header has five fields, and so has every row
    intro record hrecord
    rcases List.mem_cons.1 hrecord with rfl | hrecord
    · exact List.cons_ne_nil _ _
    · obtain ⟨row, -, rfl⟩ := List.mem_map.1 hrecord
      exact List.cons_ne_nil _ _

end Csv

/-! ## Both -/

namespace Frame

/-- **Reports for programs are lossless.** Let the scores of a frame be integers; there may be no
rows at all.

The JSON report is an array of the rows in order, each an object of exactly the five columns with the
values of the row. The comma-separated records are the names of the columns and then the rows in
order, integers in decimal, and the rows can be made from them again. -/
theorem reports_lossless (frame : Frame) (ints : ∀ row ∈ frame.rows, row.score.IsInt) :
    Json.read? (Format.json.render frame) = some (.array (frame.rows.map Row.json)) ∧
    Csv.read? (Format.csv.render frame) = some (Row.columns :: frame.rows.map Row.cells) ∧
    (frame.rows.map Row.cells).mapM Row.ofCells? = some frame.rows :=
  ⟨Json.read?_render ints, Csv.read?_render ints, Row.mapM_ofCells? ints⟩

/-- Names and signatures with characters that neither format leaves alone, and integers at the ends
of what a word holds. -/
def awkward : Frame where
  rows :=
    [{ file := "a,\"b\"/c.js", signature := "x\r\ny\\\t\x00\x7f", location := 1, depth := 0,
       score := .int (-9223372036854775808) },
     { file := "\u00e9\u2028😀", signature := "", location := -7, depth := 12,
       score := .int 9223372036854775807 }]

theorem reports_lossless_awkward :
    (∀ row ∈ awkward.rows, row.score.IsInt) ∧
    Json.read? (Format.json.render awkward) = some (.array
      [.object [("file", .string "a,\"b\"/c.js"), ("signature", .string "x\r\ny\\\t\x00\x7f"),
        ("location", .number 1 0), ("depth", .number 0 0),
        ("score", .number (-9223372036854775808) 0)],
      .object [("file", .string "\u00e9\u2028😀"), ("signature", .string ""),
        ("location", .number (-7) 0), ("depth", .number 12 0),
        ("score", .number 9223372036854775807 0)]]) ∧
    Csv.read? (Format.csv.render awkward) = some
      [["file", "signature", "location", "depth", "score"],
       ["a,\"b\"/c.js", "x\r\ny\\\t\x00\x7f", "1", "0", "-9223372036854775808"],
       ["\u00e9\u2028😀", "", "-7", "12", "9223372036854775807"]] := by
  have ints : ∀ row ∈ awkward.rows, row.score.IsInt := by simp [awkward, Amount.IsInt]
  obtain ⟨hjson, hcsv, -⟩ := reports_lossless awkward ints
  exact ⟨ints, hjson, hcsv⟩

end Frame

end ScopeScore

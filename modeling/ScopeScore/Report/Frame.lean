import ScopeScore.Report.ScoreSort
import ScopeScore.Source

set_option autoImplicit false

/-! # Frames

A frame is a list of rows, one for each scope of each file, in the order in which they were found.
The scores of a frame are of one sort, which its rows decide when it is made.
-/

namespace ScopeScore

/-- One scope in a report. -/
structure Row where
  file : String
  signature : String
  location : Int
  depth : Int
  score : Amount
deriving Repr, Inhabited

/-- The names of the columns, in order. -/
def Row.columns : List String := ["file", "signature", "location", "depth", "score"]

/-- The rows of a report. -/
structure Frame where
  rows : List Row
  /-- What the column of scores holds. -/
  sort : ScoreSort := .words
deriving Repr, Inhabited

namespace Frame

/-- The frame of these rows, with scores of one sort. -/
def ofRows (rows : List Row) : Frame :=
  let sort := ScoreSort.of (rows.map Row.score)
  { rows := rows.map fun row => { row with score := sort.store row.score }, sort }

/-- The row of a scope. -/
def rowOf (file : String) (scopes : Store) (id : ScopeId) : Except Failure Row := do
  let scope := (scopes.get? id).getD default
  let signature ← scopes.signature id
  let score ← scopes.score id
  return { file, signature, location := scope.location, depth := scope.depth, score }

/-- Reads, parses and scores one file: its rows, and the analyzer after it. -/
def rowsOfFile (d : Disk) (parse : Parser) (a : Analyzer) (p : Path) :
    Work (List Row × Analyzer) := do
  let source ← Work.ofExcept (Source.ofPath d p)
  let result := source.analyze parse a (← get)
  set result.history
  if let some e := result.failure then throw e
  let source := result.source
  let scopes := result.history.scopes
  let rows ← Work.ofExcept (source.records.mapM (rowOf source.name scopes))
  let score ← Work.ofExcept (source.score scopes)
  Work.tell (.scored source.name source.records.length score)
  return (rows, result.analyzer)

/-- The rows of some files, one file after the other, by one analyzer. -/
def rowsOfFiles (d : Disk) (parse : Parser) (a : Analyzer) : List Path → Work (List Row)
  | [] => return []
  | p :: paths => do
      let (rows, a) ← rowsOfFile d parse a p
      return rows ++ (← rowsOfFiles d parse a paths)

/-- The frame of some files. -/
def ofFiles (d : Disk) (parse : Parser) (a : Analyzer) (paths : List Path) : Work Frame := do
  return ofRows (← rowsOfFiles d parse a paths)

end Frame

end ScopeScore

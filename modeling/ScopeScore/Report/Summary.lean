import ScopeScore.Report.Frame

set_option autoImplicit false

/-! # Summaries

The summary of a frame keeps the functions that score at least a threshold, the worst first.
Functions with the same score are in the order of their files, then of their lines, then as they
were. Scores that cannot be ranked have no summary.
-/

namespace ScopeScore

/-- The threshold that holds unless another is asked for. -/
def defaultThreshold : Amount := .int 50

/-- Compares amounts that are numbers. -/
def Amount.cmp (a b : Amount) : Ordering :=
  if a.le b then if b.le a then .eq else .lt else .gt

namespace Row

/-- Is this the row of a function that scores at least `threshold`, in a frame with scores of this
sort? -/
def isHit (sort : ScoreSort) (threshold : Amount) (row : Row) : Bool :=
  sort.reaches threshold row.score && row.signature != Scope.programSignature

/-- The order of a summary: by score downwards, then by file, then by location. -/
def cmp (a b : Row) : Ordering :=
  (b.score.cmp a.score).then ((compare a.file b.file).then (compare a.location b.location))

end Row

/-- The functions of a frame that score at least `threshold`, the worst first. -/
def Frame.summarize (frame : Frame) (threshold : Amount) : Except Failure Frame := do
  let threshold ← frame.sort.fitThreshold threshold
  let hits := frame.rows.filter (Row.isHit frame.sort threshold)
  unless frame.sort.ranks (hits.map Row.score) do throw .unranked
  return { frame with rows := hits.mergeSort fun a b => (Row.cmp a b).isLE }

end ScopeScore

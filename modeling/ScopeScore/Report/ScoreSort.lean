import ScopeScore.Amount

set_option autoImplicit false

/-! # Sorts of scores

The scores of a frame stand in one column, and a column is of one sort. Integers that fit into
words of 64 bits are a column of words; with binary64 numbers among them all become such. If the
integers do not fit, the column takes every score as it is, and so it stays for each part of it.

The sort decides how scores compare with a threshold. A column of words or of binary64 numbers and
a threshold of the other kind are brought to binary64 numbers first; all else compares exactly. To
put scores into an order they are ranked, and scores that a column would make equal have no rank.
-/

namespace ScopeScore

/-- What a column of scores holds. -/
inductive ScoreSort where
  /-- Integers that fit into words of 64 bits. -/
  | words
  /-- Binary64 numbers. -/
  | reals
  /-- Amounts of any size and kind. -/
  | mixed
deriving DecidableEq, Repr, Inhabited

/-- Does an integer fit into a word with a sign? -/
def fitsSigned (n : Int) : Bool := -(Nat.pow 2 63 : Nat) ≤ n && n < (Nat.pow 2 63 : Nat)

/-- Does an integer fit into a word without a sign? -/
def fitsUnsigned (n : Int) : Bool := 0 ≤ n && n < (Nat.pow 2 64 : Nat)

namespace ScoreSort

/-- The sort of a column for these scores. The words of a column have a sign, or have none. -/
def of (scores : List Amount) : ScoreSort :=
  let integers := scores.filterMap Amount.int?
  if !(integers.all fitsSigned || integers.all fitsUnsigned) then .mixed
  else if scores.any Amount.isReal then .reals
  else .words

/-- A score as it stands in a column of this sort. -/
def store : ScoreSort → Amount → Amount
  | .reals, a => .real a.rounded
  | .words, a | .mixed, a => a

/-- A threshold as the scores of a column are compared with it. Binary64 scores need one that has a
finite binary64 number near it. -/
def fitThreshold : ScoreSort → Amount → Except Failure Amount
  | .reals, threshold => do return .real (← threshold.toFloat)
  | .words, threshold | .mixed, threshold => .ok threshold

/-- Does a score of a column reach a threshold? Words become binary64 numbers if the threshold is
one. -/
def reaches : ScoreSort → Amount → Amount → Bool
  | .words, .real t, score => t ≤ score.rounded
  | .words, threshold, score | .reals, threshold, score | .mixed, threshold, score =>
      threshold.le score

/-- Can scores of a column be ranked? The different ones among them make a column of their own,
which may have a stricter sort than a mixed one, and there they have to stay different. -/
def ranks : ScoreSort → List Amount → Bool
  | .mixed, scores =>
      let ranked := Amount.distinct scores
      match of ranked with
      | .reals => (Amount.distinct (ranked.map (store .reals))).length = ranked.length
      | .words | .mixed => true
  | .words, _ | .reals, _ => true

end ScoreSort

end ScopeScore

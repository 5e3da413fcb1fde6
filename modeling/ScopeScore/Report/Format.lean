import ScopeScore.Report.Csv
import ScopeScore.Report.Json
import ScopeScore.Report.Summary
import ScopeScore.Report.Table

set_option autoImplicit false

/-! # Formats of a report -/

namespace ScopeScore

/-- The formats in which a report can be written. -/
inductive Format where
  | table
  | json
  | csv
deriving DecidableEq, Repr

namespace Format

def name : Format → String
  | .table => "table"
  | .json => "json"
  | .csv => "csv"

/-- All formats, in the order in which they are offered. -/
def all : List Format := [.table, .json, .csv]

/-- The format of this name. -/
def ofName? (name : String) : Option Format := all.find? fun f => f.name == name

/-- A frame in a format. -/
def render : Format → Frame → String
  | .table => Table.render
  | .json => Json.render
  | .csv => Csv.render

end Format

end ScopeScore

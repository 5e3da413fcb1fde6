import ScopeScore.Decimal.Style

set_option autoImplicit false

/-! # The log

What the program tells about its progress, as events. Each has a level, the component that tells
it, and a wording; a listener asks for the events from some level up.
-/

namespace ScopeScore

/-- How much an event matters, the least first. -/
inductive Level where
  | debug
  | info
  | warning
  | error
  | critical
deriving DecidableEq, Repr

namespace Level

def rank : Level → Nat
  | .debug => 10
  | .info => 20
  | .warning => 30
  | .error => 40
  | .critical => 50

def name : Level → String
  | .debug => "DEBUG"
  | .info => "INFO"
  | .warning => "WARNING"
  | .error => "ERROR"
  | .critical => "CRITICAL"

def all : List Level := [.debug, .info, .warning, .error, .critical]

/-- The level of this name. -/
def ofName? (name : String) : Option Level := all.find? fun l => l.name == name

end Level

/-- Something worth telling. -/
inductive Event where
  /-- A scope was opened. -/
  | scopeEntered (line : Int) (depth : Int)
  /-- The text of a source is not quite JavaScript; its tree was patched up. -/
  | patchedTree (source : String)
  /-- A source was scored. -/
  | scored (source : String) (scopes : Nat) (score : Amount)
deriving Repr

namespace Event

def level : Event → Level
  | .scopeEntered .. => .debug
  | .patchedTree .. => .warning
  | .scored .. => .info

/-- The component that tells an event. The one that scores files is known under the name by which
the program was started. -/
def component (reporter : String) : Event → String
  | .scopeEntered .. => "src.main.complexity.analyzer"
  | .patchedTree .. => "src.main.collect.source_file"
  | .scored .. => reporter

def message : Event → String
  | .scopeEntered line depth => s!"Entered scope at line {line}, depth {depth}"
  | .patchedTree source => s!"{source}: syntax errors, scores may be incomplete"
  | .scored source scopes score => s!"{source}: {scopes} scopes, score {score.text}"

end Event

/-- The name of the component that scores files, unless the program is started otherwise. -/
def defaultReporter : String := "src.main.analysis.complexity_report"

/-- Events in the order in which they were told. -/
abbrev Log := Array Event

/-- The events that matter at least as much as `level`. -/
def Log.atLeast (log : Log) (level : Level) : List Event :=
  log.toList.filter fun e => level.rank ≤ e.level.rank

end ScopeScore

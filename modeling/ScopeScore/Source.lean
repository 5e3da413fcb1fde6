import ScopeScore.Analyzer.Basic
import ScopeScore.Files.Disk
import ScopeScore.Scope.Record

set_option autoImplicit false

/-! # Sources

A source is a text, read from a file or given as such, with the tree of the text and the scopes
found in it. The text is parsed when the tree is first asked for, and never again: from then on the
source keeps that tree, even if it is given another text. An empty text has no tree.

Analysing a source hands out the list of its records, which goes on to be the list of the source:
what is added to the source is added to it. With the next analysis the source turns to a new list,
and the old one stays as it is (`Source.turnTo`). So that lists handed out can be looked at later, a
source keeps all of them, and a list is told by its number.

The parser is a parameter of everything here: any function from texts to trees will do.
-/

namespace ScopeScore

/-- What a parser makes of a text. A parser never refuses a text; it says whether it had to patch
the tree up. -/
structure Parsed where
  root : Node
  patched : Bool
deriving Inhabited

/-- A parser for JavaScript. -/
abbrev Parser := String → Parsed

/-- A text with its tree and its scopes. -/
structure Source where
  path : Option Path
  /-- The text; a source may be left without one after it was made. -/
  text : Option String
  /-- The lists of records that it had before, in order. -/
  retired : List (List ScopeId) := []
  /-- The scopes found or added, in order. -/
  records : List ScopeId := []
  /-- The tree, once it was asked for. -/
  tree : Option Parsed := none
deriving Inhabited

namespace Source

/-- A source of the given text, or of the text of the file at `path`. -/
def new (d : Disk) (path : Option Path) (text : Option String) : Except Failure Source :=
  match text, path with
  | some text, path => .ok { path, text := some text }
  | none, some p => do return { path := some p, text := some (← d.readText p) }
  | none, none => .error .noSource

/-- The source of a file. -/
def ofPath (d : Disk) (p : Path) : Except Failure Source := new d (some p) none

/-- How messages name the source. -/
def name (s : Source) : String := (s.path.map Path.toString).getD "<string>"

/-- Is there nothing to parse? -/
def isEmpty (s : Source) : Bool := s.text.getD "" == ""

/-- The tree of the source, made now if it is not there yet. A patched tree is told of when it is
made. -/
def ast (parse : Parser) (s : Source) (h : History) : Option Parsed × Source × History :=
  if s.isEmpty then (none, s, h)
  else
    match s.tree with
    | some tree => (some tree, s, h)
    | none =>
        let tree := parse (s.text.getD "")
        (some tree, { s with tree := some tree },
          if tree.patched then h.tell (.patchedTree s.name) else h)

/-- Adds a scope to the records. -/
def add (s : Source) (id : ScopeId) : Source := { s with records := s.records ++ [id] }

/-- All lists of records that the source has had, the one that it has now last. -/
def lists (s : Source) : List (List ScopeId) := s.retired ++ [s.records]

/-- Gives the list of records up for a new one. -/
def turnTo (s : Source) (records : List ScopeId) : Source := { s with retired := s.lists, records }

/-- What analysing a source leaves behind. -/
structure Result where
  source : Source
  /-- The list of records that is handed out, by its number among the lists of the source. -/
  list : Nat
  analyzer : Analyzer
  history : History
  failure : Option Failure
deriving Inhabited

/-- Scores the source. Its records become those of this run, in a list of their own. -/
def analyze (parse : Parser) (a : Analyzer) (s : Source) (h : History) : Result :=
  let (tree, s, h) := ast parse s h
  let run := a.analyze (tree.map fun t => Place.top t.root) Recorder.unlimited h
  { source := s.turnTo run.recorder.records
    list := s.lists.length
    analyzer := run.analyzer
    history := run.history
    failure := run.failure }

/-- The first record that no scope encloses. -/
def root? (s : Source) (scopes : Store) : Option ScopeId :=
  s.records.find? fun id => (scopes.get? id).any fun scope => scope.depth == 0

/-- The score of the whole source. -/
def score (s : Source) (scopes : Store) : Except Failure Amount :=
  match s.root? scopes with
  | some id => scopes.score id
  | none => .ok .zero

end Source

end ScopeScore

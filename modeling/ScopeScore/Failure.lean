import ScopeScore.Text.Utf8
import ScopeScore.Text.Quoted

set_option autoImplicit false

/-! # What can go wrong

Every way in which an operation of this library can fail, as a cause and not as a text. The wording
of all causes is in one place, `Failure.message`.
-/

namespace ScopeScore

/-- Why a file could not be opened. -/
inductive AccessError where
  /-- Nothing has this path. -/
  | missing (path : String)
  /-- The path names a folder, where a file is needed. -/
  | isFolder (path : String)
  /-- The path goes on behind a file. -/
  | notFolder (path : String)
  /-- The path, or a name in it, is longer than a disk allows. -/
  | tooLong (path : String)
  /-- A path cannot hold the character `U+0000`. -/
  | nulInPath
deriving DecidableEq, Repr

/-- A cause of failure. -/
inductive Failure where
  /-- Octets that should be text are no UTF-8. -/
  | undecodable (fault : Utf8.Invalid)
  /-- An integer has no finite binary64 number near it. -/
  | tooLarge
  /-- A scope contains itself, so it has no score. -/
  | endlessNesting
  /-- A recorder holds as many scopes as it may. -/
  | recorderFull
  /-- A weight is given for a category that does not exist. -/
  | unknownCategory (name : String)
  /-- A source has neither a path nor a text. -/
  | noSource
  /-- A metric of this name exists. -/
  | metricTaken (name : String)
  /-- No metric has this name. -/
  | metricUnknown (name : String)
  /-- A file could not be opened. -/
  | access (cause : AccessError)
  /-- A path to be searched does not exist. -/
  | noSuchPath (path : String)
  /-- A search found no source file. -/
  | nothingFound
  /-- Different scores of a summary become the same when they are ranked. -/
  | unranked
  /-- There are scores, as many as told, and the threshold for them was taken away. -/
  | noThreshold (scores : Nat)
  /-- The file for a report was taken away. -/
  | noTarget
deriving DecidableEq, Repr

def AccessError.message : AccessError → String
  | .missing path => s!"[Errno 2] No such file or directory: {Text.quoted path}"
  | .isFolder path => s!"[Errno 21] Is a directory: {Text.quoted path}"
  | .notFolder path => s!"[Errno 20] Not a directory: {Text.quoted path}"
  | .tooLong path => s!"[Errno 36] File name too long: {Text.quoted path}"
  | .nulInPath => "embedded null byte"

/-- The wording of a cause. -/
def Failure.message : Failure → String
  | .undecodable fault => fault.message
  | .tooLarge => "int too large to convert to float"
  | .endlessNesting => "maximum recursion depth exceeded"
  | .recorderFull => "collector full"
  | .unknownCategory name => s!"Unknown weight category: {name}"
  | .noSource => "SourceFile needs a path or source code."
  | .metricTaken name => s!"Metric already registered: {name}"
  | .metricUnknown name => name
  | .access cause => cause.message
  | .noSuchPath path => s!"No such file or directory: {path}"
  | .nothingFound => "No JavaScript files found."
  | .unranked => "Categorical categories must be unique"
  | .noThreshold scores => s!"('Lengths must match to compare', ({scores},), (0,))"
  | .noTarget => "'list' object has no attribute 'write_text'"

end ScopeScore

import ScopeScore.Text.Basic

set_option autoImplicit false

/-! # Paths

A path is a list of names below a root or below the working folder. Reading a path drops what says
nothing (empty names, the name `.`) and keeps `..`, because the folder before it has to exist.

Paths are ordered name by name, so a folder and what is in it stay together.
-/

namespace ScopeScore

/-- A path by its names. -/
structure Path where
  /-- Empty for a path below the working folder. Exactly two slashes are a root of their own. -/
  root : String
  names : List String
deriving DecidableEq, Repr, Inhabited

namespace Path

/-- The root that a number of leading slashes stands for. -/
def rootOf : Nat → String
  | 0 => ""
  | 2 => "//"
  | _ => "/"

/-- Reads a path. -/
def ofString (s : String) : Path :=
  let cs := s.toList
  let names := (Text.splitAt '/' cs).map String.ofList
  { root := rootOf (cs.takeWhile (· == '/')).length
    names := names.filter fun name => name != "" && name != "." }

/-- Writes a path; the working folder itself is a point. -/
def toString (p : Path) : String :=
  if p.root == "" && p.names.isEmpty then "." else p.root ++ "/".intercalate p.names

def isAbsolute (p : Path) : Bool := p.root != ""

/-- Can no item have this path, because a name holds the character `U+0000`? -/
def hasNul (p : Path) : Bool := p.names.any fun name => name.toList.contains (Char.ofNat 0)

/-- The greatest length of a name, in octets. -/
def nameLimit : Nat := 255

/-- The greatest length of a written path, in octets. -/
def lengthLimit : Nat := 4095

/-- Is a path longer than any that can be looked up? -/
def isTooLong (p : Path) : Bool := lengthLimit < p.toString.utf8ByteSize

/-- The path of an item below `p`. -/
def append (p : Path) (names : List String) : Path := { p with names := p.names ++ names }

/-- The names by which paths are ordered; a root comes first. -/
def orderKey (p : Path) : List String :=
  if p.isAbsolute then p.root :: p.names else p.names

/-- Compares lists of names, name by name and each by code points. -/
def namesLe : List String → List String → Bool
  | [], _ => true
  | _ :: _, [] => false
  | a :: as, b :: bs =>
      match compare a b with
      | .lt => true
      | .eq => namesLe as bs
      | .gt => false

/-- Does `a` come before `b`, or are they the same? -/
def le (a b : Path) : Bool := namesLe a.orderKey b.orderKey

/-- The suffix of a name: what follows its last point, with the point. A point that begins or ends
the name starts no suffix. -/
def suffix (name : String) : String :=
  let cs := name.toList
  let last := (cs.reverse.takeWhile (· != '.')).reverse
  if last.isEmpty || cs.length ≤ last.length + 1 then "" else String.ofList ('.' :: last)

end Path

end ScopeScore

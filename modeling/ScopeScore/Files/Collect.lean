import ScopeScore.Files.Disk

set_option autoImplicit false

/-! # Finding source files

`collect` turns paths of files and folders into a list of source files. A file that is named is
taken whatever it is called; below a folder every file with one of the wanted suffixes is. The
result is sorted and has no path twice.
-/

namespace ScopeScore

/-- The suffixes of JavaScript files. -/
def sourceSuffixes : List String := [".js", ".cjs", ".mjs"]

namespace Disk

/-- The files below a folder. Everything below it is looked up for that, so no path may be too
long. -/
def filesBelow (p : Path) (folder : Item) : Except Failure (List Path) :=
  match (folder.itemsBelow.map p.append).find? Path.isTooLong with
  | some long => .error (Fault.tooLong.at long)
  | none => .ok (folder.filesBelow.map p.append)

/-- The files that one path stands for. A path that is too long is a fault of its own. -/
def expand (d : Disk) (suffixes : List String) (p : Path) : Except Failure (List Path) :=
  if p.hasNul then .error (.noSuchPath p.toString)
  else
    match d.lookup p with
    | .ok (.file ..) => .ok [p]
    | .ok folder => do
        return (← filesBelow p folder).filter fun q =>
          suffixes.contains (Path.suffix (q.names.getLastD ""))
    | .error .tooLong => .error (Fault.tooLong.at p)
    | .error _ => .error (.noSuchPath p.toString)

/-- The source files that the paths stand for. The first path that leads nowhere is a fault, and so
is finding nothing at all. -/
def collect (d : Disk) (suffixes : List String) (paths : List Path) :
    Except Failure (List Path) := do
  let found := (← paths.mapM (d.expand suffixes)).flatten
  if found.isEmpty then throw .nothingFound
  return found.eraseDups.mergeSort Path.le

end Disk

end ScopeScore

import ScopeScore.CommandLine.Run
import ScopeScore.Listing

set_option autoImplicit false

/-! # The command

Reads what the command line names from the disk, runs the program on it and prints what it says.
The tree of a source `x.js` is taken from the listing `x.js.tree` beside it. Nothing is decided
here: the program is `Program.run`.
-/

namespace ScopeScore.Command

/-- A place on the disk by the names from the root. -/
def address (place : List String) : String := "/" ++ "/".intercalate place

/-- Does a place hold a folder? -/
def isFolder (place : List String) : IO Bool := do ((← IO.currentDir) / address place).isDir

/-- The file or the folder at a place, with all that is below it; folders deeper than `depth` are
taken for empty. -/
def load (depth : Nat) (place : List String) (name : String) : IO (Option Item) := do
  let here := (← IO.currentDir) / address place
  if ← here.isDir then
    match depth with
    | 0 => return some (.folder name [])
    | depth + 1 =>
        let entries ← here.readDir
        let items ← entries.toList.mapM fun entry =>
          load depth (place ++ [entry.fileName]) entry.fileName
        return some (.folder name (items.filterMap fun item => item))
  else if ← here.pathExists then
    let octets ← IO.FS.readBinFile here
    return some (.file name octets.toList)
  else return none

/-- Where the listing of the tree of a file is. -/
def listingOf (place : List String) : List String :=
  place.dropLast ++ [place.getLastD "" ++ ".tree"]

/-- Adds what a path leads to, the listing beside it, and the folders on the way, to a disk. -/
def addPath (depth : Nat) (d : Disk) (p : Path) : IO Disk := do
  let mut root := d.root
  let mut place := if p.isAbsolute then [] else d.working
  for name in p.names do
    if (root.get? place).isNone && (← isFolder place) then
      root := root.put place (Item.folder · [])
    place := if name == ".." then place.dropLast else place ++ [name]
  for spot in [place, listingOf place] do
    if let some item ← load depth spot (spot.getLastD "") then
      root := if spot.isEmpty then item else root.put spot fun _ => item
  return { d with root }

/-- The texts of all files with a listing beside them, with their trees. -/
def trees (d : Disk) : List (String × Parsed) :=
  d.root.filesBelow.filterMap fun names => do
    let source := { root := "/", names : Path }
    let listing := { root := "/", names := listingOf names : Path }
    let text ← (d.readText source).toOption
    let parsed ← Parsed.ofListing? (← (d.readText listing).toOption)
    return (text, parsed)

/-- How deep folders are searched. -/
def searchDepth : Nat := 256

end ScopeScore.Command

open ScopeScore ScopeScore.Command in
def main (args : List String) : IO UInt32 := do
  let working := (Path.ofString (← IO.currentDir).toString).names
  let settings := (Settings.ofArguments args).toOption
  let mut disk : Disk := { root := .folder "" [], working }
  disk := { disk with root := disk.root.put working (Item.folder · []) }
  for p in (settings.bind Settings.paths).getD [] do
    disk ← addPath searchDepth disk p
  let target := (settings.map Settings.output).getD .screen
  if let .file p := target then
    disk ← addPath 0 disk p
  match Program.command.run (Parser.ofTrees (trees disk)) disk args with
  | .ok outcome =>
      if let .file p := target then
        if let .ok octets := outcome.disk.readFile p then
          IO.FS.writeBinFile p.toString octets.toByteArray
      IO.print outcome.stdout
      IO.eprint outcome.stderr
      return outcome.exit.toUInt32
  | .error e =>
      IO.eprintln e.message
      return 1

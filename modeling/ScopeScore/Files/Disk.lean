import ScopeScore.Failure
import ScopeScore.Files.Path
import ScopeScore.Text.Basic

set_option autoImplicit false

/-! # The disk

A disk is a tree of folders with files in them and a working folder. Looking a path up goes from
folder to folder, so every folder on the way has to exist, also one that `..` leaves again. The
length of a path is limited, and so is that of each name, which matters where the name is looked up.
-/

namespace ScopeScore

/-- A file or a folder, with its name. -/
inductive Item where
  | file (name : String) (octets : List UInt8)
  | folder (name : String) (items : List Item)
deriving Repr, Inhabited

namespace Item

def name : Item → String
  | .file name _ => name
  | .folder name _ => name

/-- The item of this name among some. -/
def find? (items : List Item) (name : String) : Option Item :=
  items.find? fun item => item.name == name

/-- The item below this one that the names lead to. -/
def get? (item : Item) : List String → Option Item
  | [] => some item
  | name :: names =>
      match item with
      | .file .. => none
      | .folder _ items => (find? items name).bind (·.get? names)

/-- Replaces the item of the same name among some, or adds it at the end. -/
def replace (items : List Item) (new : Item) : List Item :=
  if items.any fun item => item.name == new.name then
    items.map fun item => if item.name == new.name then new else item
  else items ++ [new]

/-- Puts an item where the names lead, below this one, making the folders on the way. The last name
is the one that the item gets. -/
def put (item : Item) (names : List String) (new : String → Item) : Item :=
  match names with
  | [] => item
  | [name] =>
      match item with
      | .file .. => item
      | .folder own items => .folder own (replace items (new name))
  | name :: names =>
      match item with
      | .file .. => item
      | .folder own items =>
          let inner := (find? items name).getD (.folder name [])
          .folder own (replace items (inner.put names new))

mutual

/-- The names that lead to every file below an item. -/
def filesBelow : Item → List (List String)
  | .file .. => []
  | .folder _ items => filesAmong items

/-- The names that lead to every file that is one of some items or below one. -/
def filesAmong : List Item → List (List String)
  | [] => []
  | .file name _ :: items => [name] :: filesAmong items
  | .folder name inner :: items =>
      (filesAmong inner).map (name :: ·) ++ filesAmong items

/-- The names that lead to everything below an item, what is in a folder before what is deeper. -/
def itemsBelow : Item → List (List String)
  | .file .. => []
  | .folder _ items => items.map (fun item => [item.name]) ++ itemsInside items

/-- The names that lead to everything below one of some items. -/
def itemsInside : List Item → List (List String)
  | [] => []
  | .file .. :: items => itemsInside items
  | .folder name inner :: items =>
      (inner.map (fun item => [item.name]) ++ itemsInside inner).map (name :: ·) ++
        itemsInside items

end

end Item

/-- A tree of folders and the names that lead to the working folder. -/
structure Disk where
  root : Item := .folder "" []
  working : List String := []
deriving Inhabited

namespace Disk

/-- Why a path leads nowhere. -/
inductive Fault where
  | missing
  | notFolder
  | tooLong
deriving DecidableEq, Repr

/-- One name further: from a folder that exists, down to the name or up to the folder around it. -/
def step (d : Disk) (place : List String) (name : String) : Except Fault (List String) :=
  match d.root.get? place with
  | some (.folder ..) =>
      if Path.nameLimit < name.utf8ByteSize then .error .tooLong
      else .ok (if name == ".." then place.dropLast else place ++ [name])
  | some (.file ..) => .error .notFolder
  | none => .error .missing

/-- The folder from which a path starts. -/
def start (d : Disk) (p : Path) : List String := if p.isAbsolute then [] else d.working

/-- Where a path leads, from the root. Only the last name may be of nothing. -/
def locate (d : Disk) (p : Path) : Except Fault (List String) :=
  if p.isTooLong then .error .tooLong else p.names.foldlM d.step (d.start p)

/-- What a path leads to. -/
def lookup (d : Disk) (p : Path) : Except Fault Item := do
  match d.root.get? (← d.locate p) with
  | some item => return item
  | none => throw .missing

/-- The item of a path, if there is one. -/
def item? (d : Disk) (p : Path) : Option Item :=
  if p.hasNul then none
  else
    match d.lookup p with
    | .ok item => some item
    | .error _ => none

/-- The cause to be told for a fault at `p`. -/
def Fault.at (fault : Fault) (p : Path) : Failure :=
  match fault with
  | .missing => .access (.missing p.toString)
  | .notFolder => .access (.notFolder p.toString)
  | .tooLong => .access (.tooLong p.toString)

/-- The octets of a file. -/
def readFile (d : Disk) (p : Path) : Except Failure (List UInt8) :=
  if p.hasNul then .error (.access .nulInPath)
  else
    match d.lookup p with
    | .ok (.file _ octets) => .ok octets
    | .ok (.folder ..) => .error (.access (.isFolder p.toString))
    | .error fault => .error (fault.at p)

/-- The text of a file, every line ended by a line feed. -/
def readText (d : Disk) (p : Path) : Except Failure String := do
  let octets ← d.readFile p
  match Utf8.decode octets with
  | .ok text => return String.ofList (Text.unifyNewlines text.toList)
  | .error fault => throw (.undecodable fault)

/-- Writes a file, in place of one that may be there. The folder for it has to exist. -/
def writeFile (d : Disk) (p : Path) (octets : List UInt8) : Except Failure Disk :=
  if p.hasNul then .error (.access .nulInPath)
  else
    match d.locate p with
    | .ok place =>
        match d.root.get? place with
        | some (.folder ..) => .error (.access (.isFolder p.toString))
        | _ => .ok { d with root := d.root.put place (Item.file · octets) }
    | .error fault => .error (fault.at p)

/-- Goes one name further and makes the folder of that name, if there is nothing yet. -/
def stepMaking (here : Disk × List String) (name : String) : Disk × List String :=
  let (d, place) := here
  if name == ".." then (d, place.dropLast)
  else
    let place := place ++ [name]
    if (d.root.get? place).isSome then (d, place)
    else ({ d with root := d.root.put place (Item.folder · []) }, place)

/-- Makes a folder, and those on the way to it. -/
def makeFolder (d : Disk) (p : Path) : Disk := (p.names.foldl stepMaking (d, d.start p)).1

end Disk

end ScopeScore

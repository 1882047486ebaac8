namespace Adjudication

inductive FileItem
  | folder
  /-- A text, with the bits of its permissions. -/
  | file (text : String) (mode : Nat)
deriving DecidableEq

/-- The names on the way from the root to an item. -/
abbrev Place := List String

/-- Files and folders held in memory. Every folder on the way of a path has to exist, also in front of a
step back up. -/
structure FileTree where
  /-- Every item but the root. -/
  items : List (Place × FileItem) := []
  workingFolder : Place := []

namespace FileTree

def maxName : Nat := 255
def maxPath : Nat := 4095

/-- What only the owner may read and write. -/
def secretMode : Nat := 6 * 64

/-- What everyone may read, and the owner write. -/
def sharedMode : Nat := 6 * 64 + 4 * 8 + 4

def item? (t : FileTree) (place : Place) : Option FileItem :=
  if place.isEmpty then some .folder else t.items.lookup place

def isFolder (t : FileTree) (place : Place) : Bool := t.item? place = some .folder

def put (t : FileTree) (place : Place) (item : FileItem) : FileTree :=
  { t with items := (place, item) :: t.items.filter fun x => x.1 ≠ place }

/-- The names of a path; those that stay where they are do not count. -/
def names (path : String) : List String :=
  (path.splitOn "/").filter fun name => name ≠ "" ∧ name ≠ "."

/-- Where the walk along a path begins; an empty path and one that is too long lead nowhere. -/
def start? (t : FileTree) (path : String) : Option Place :=
  if path.isEmpty ∨ maxPath < path.utf8ByteSize then none
  else if path.startsWith "/" then some []
  else some t.workingFolder

def next (place : Place) (name : String) : Place :=
  if name = ".." then place.dropLast else place ++ [name]

/-- Walks to a place, which may be empty itself. -/
def walk (t : FileTree) : Place → List String → Option Place
  | place, [] => some place
  | place, name :: rest =>
    if t.isFolder place ∧ name.utf8ByteSize ≤ maxName then t.walk (next place name) rest else none

def locate (t : FileTree) (path : String) : Option Place :=
  (t.start? path).bind fun place => t.walk place (names path)

/-- Whether a path, by the way it ends, can only be that of a folder. -/
def namesFolder (path : String) : Bool :=
  match (path.splitOn "/").getLast? with
  | some last => last = "" || last = "." || last = ".."
  | none => false

def readText (t : FileTree) (path : String) : Option (String × Nat) :=
  if namesFolder path then none
  else
    match (t.locate path).bind t.item? with
    | some (.file text mode) => some (text, mode)
    | _ => none

/-- Writes a file, in place of one that is there. -/
def writeText (t : FileTree) (path text : String) (mode : Nat) : Option FileTree :=
  match t.locate path with
  | none => none
  | some place =>
    if namesFolder path ∨ t.isFolder place then none else some (t.put place (.file text mode))

/-- Walks to a place and creates the folders that are missing. -/
def grow (t : FileTree) : Place → List String → Option FileTree
  | _, [] => some t
  | place, name :: rest =>
    let place := next place name
    match t.item? place with
    | some .folder => t.grow place rest
    | some (.file ..) => none
    | none => if name.utf8ByteSize ≤ maxName then (t.put place .folder).grow place rest else none

/-- Creates a folder and those above it, as far as they are missing. A path that ends in a dot needs
the folder to be there. -/
def createFolders (t : FileTree) (path : String) : Option FileTree :=
  if (path.splitOn "/").getLast? = some "." then
    if (t.locate path).any t.isFolder then some t else none
  else (t.start? path).bind fun place => t.grow place (names path)

end FileTree

end Adjudication

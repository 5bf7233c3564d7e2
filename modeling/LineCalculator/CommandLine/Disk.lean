import LineCalculator.CommandLine.FileSystem
import LineCalculator.Text.Utf8

/- A disk of files and directories, without links. A place is given by the names that lead to it from the root;
   a path starts at the root or at the working directory. -/
namespace LineCalculator

/-- Each entry with its place, and the place of the working directory. -/
structure Disk where
  entries : List (List (List Char) × Entry)
  home : List (List Char)
  deriving DecidableEq, Repr

namespace Disk

def names (path : List Char) : List (List Char) := path.splitOn '/'

def isProperFront (front place : List (List Char)) : Bool := front.isPrefixOf place && front ≠ place

/-- The working directory and those above it are there. Another directory is there when it was made, or when
    something was made below it. -/
def find? (disk : Disk) (place : List (List Char)) : Option Entry :=
  if place.isPrefixOf disk.home then some .directory
  else
    match disk.entries.find? (·.1 = place) with
    | some (_, entry) => some entry
    | none => if disk.entries.any (isProperFront place ·.1) then some .directory else none

/-- One name further along a path; only a directory leads on, and the root lies above itself. -/
def enter? (disk : Disk) (place : List (List Char)) (name : List Char) : Option (List (List Char)) :=
  if disk.find? place ≠ some .directory then none
  else if name = [] ∨ name = ['.'] then some place
  else if name = ['.', '.'] then some place.dropLast
  else if (disk.find? (place ++ [name])).isSome then some (place ++ [name])
  else none

def follow? (disk : Disk) (path : List Char) (names : List (List Char)) : Option (List (List Char)) :=
  names.foldlM disk.enter? (if path.head? = some '/' then [] else disk.home)

def pathLimit : Nat := 4096

def isTooLong (path : List Char) : Bool := pathLimit ≤ (Utf8.encode path).length

def locate? (disk : Disk) (path : List Char) : Option (List (List Char)) :=
  if isTooLong path then none else disk.follow? path (names path)

def isStep (name : List Char) : Bool := name = [] || name = ['.'] || name = ['.', '.']

/-- The place of a file that may be made at a path: a directory has to be there for it, and none in its way. -/
def newPlace? (disk : Disk) (path : List Char) : Option (List (List Char)) :=
  if isTooLong path then none
  else
    match disk.follow? path (names path).dropLast, (names path).getLast? with
    | some place, some name =>
      if isStep name = false ∧ disk.find? place = some .directory ∧
          disk.find? (place ++ [name]) ≠ some .directory
      then some (place ++ [name])
      else none
    | _, _ => none

def clear (disk : Disk) (place : List (List Char)) : Disk :=
  { disk with entries := (place, .file []) :: disk.entries.filter (·.1 ≠ place) }

@[simp] theorem home_clear (disk : Disk) (place : List (List Char)) : (disk.clear place).home = disk.home := rfl

def create? (disk : Disk) (path : List Char) : Option Disk := (disk.newPlace? path).map disk.clear

instance : FileSystem Disk where
  Place := List (List Char)
  locate? := locate?
  find? := find?
  create? := create?

instance : DecidableEq (FileSystem.Place Disk) := inferInstanceAs (DecidableEq (List (List Char)))

def isFile (disk : Disk) (path : List Char) : Bool :=
  match FileSystem.open? disk path with
  | some (.file _) => true
  | _ => false

/-- Files and directories by their paths from a working directory whose own name no path spells; each is made
    with all directories on its path. -/
def ofLists (files : List (List Char × List UInt8)) (directories : List (List Char)) : Disk :=
  let home : List (List Char) := [[]]
  let place := fun path => home ++ (names path).filter (· ≠ [])
  ⟨files.map (fun (path, content) => (place path, .file content)) ++
    directories.map fun path => (place path, .directory), home⟩

end Disk
end LineCalculator

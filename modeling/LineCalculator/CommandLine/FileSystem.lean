/- Files as a program finds them, whatever keeps them: a path leads to a place, and something may be there.
   How paths are spelled, and which of them lead to the same place, is the affair of the file system. -/
namespace LineCalculator

inductive Entry where
  | file (content : List UInt8)
  | directory
  deriving DecidableEq, Repr

/-- Making a file at a path empties one that is there already. -/
class FileSystem (δ : Type) where
  Place : Type
  locate? : δ → List Char → Option Place
  find? : δ → Place → Option Entry
  create? : δ → List Char → Option δ

namespace FileSystem
variable {δ : Type} [FileSystem δ]

def open? (disk : δ) (path : List Char) : Option Entry := (locate? disk path).bind (find? disk)

/-- The path leads to the file that can be made at another. -/
def LeadsTo (disk : δ) (other path : List Char) : Prop :=
  ∃ made, create? disk other = some made ∧ locate? made path = locate? made other

end FileSystem

/-- What is made is an empty file, and only the paths that lead to it find something new. -/
class LawfulFileSystem (δ : Type) [FileSystem δ] : Prop where
  open?_of_created {disk made : δ} {path : List Char} (creates : FileSystem.create? disk path = some made) :
    FileSystem.open? made path = some (.file [])
  open?_of_apart {disk made : δ} {path other : List Char}
    (creates : FileSystem.create? disk path = some made) (apart : ¬ FileSystem.LeadsTo disk path other) :
    FileSystem.open? made other = FileSystem.open? disk other

end LineCalculator

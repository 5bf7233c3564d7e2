import LineCalculator.CommandLine.Disk
import LineCalculator.CommandLine.Program

/- The program run on a file system and a standard input that is there as a whole. What it comes to is the exit
   code, the standard output, the complaint on the error output and the files left behind. -/
namespace LineCalculator

/-- What a run finds outside, and what it has written so far, latest first. -/
structure World (δ : Type) where
  disk : δ
  input : List UInt8
  written : List (List UInt8)
  complaint : Option (List Char)

/-- A directory opens, but cannot be read. -/
def Entry.pieces : Entry → List (Option (List UInt8))
  | .file content => (Text.cutAfter Console.isNewline content).map some
  | .directory => [none]

instance {m : Type → Type} [Monad m] : ForIn m Entry (Option (List UInt8)) where
  forIn entry := forIn entry.pieces

instance {δ : Type} [FileSystem δ] : Host (StateM (World δ)) Entry where
  input := return .file (← get).input
  open? path := return FileSystem.open? (← get).disk path
  create path := do
    match FileSystem.create? (← get).disk path with
    | none => return false
    | some made =>
      modify fun world => { world with disk := made }
      return true
  write bytes := do
    modify fun world => { world with written := bytes :: world.written }
    return true
  complain text := modify fun world => { world with complaint := some text }
  usage _ := pure ()

/-- A complaint is there exactly when the code is 1. -/
structure Outcome (δ : Type := Disk) where
  code : Nat
  output : List UInt8
  complaint : Option (List Char)
  disk : δ
  deriving DecidableEq, Repr

variable {δ : Type}

def Outcome.of (program : StateM (World δ) Nat) (disk : δ) (input : List UInt8) : Outcome δ :=
  let (code, world) := (program.run ⟨disk, input, [], none⟩).run
  ⟨code, world.written.reverse.flatten, world.complaint, world.disk⟩

def CommandLine.run [FileSystem δ] (disk : δ) (input : List UInt8) (arguments : List (List Char)) :
    Outcome δ :=
  .of (perform arguments) disk input

end LineCalculator

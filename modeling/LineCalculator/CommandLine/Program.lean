import LineCalculator.CommandLine.Invocation
import LineCalculator.Console.Input
import LineCalculator.Text.PathQuote

/- The program, over whatever is outside of it. A host gives it an input and files, takes what it writes, and
   is asked for the next piece only when the one before has been answered. -/
namespace LineCalculator

/-- A source yields its pieces, and nothing in place of one that could not be read. Making a file and writing
    tell whether they went well; usage is told because it was asked for, or because the arguments are in error. -/
class Host (m : Type → Type) (ρ : outParam Type) where
  input : m ρ
  open? (path : List Char) : m (Option ρ)
  create (path : List Char) : m Bool
  write (bytes : List UInt8) : m Bool
  complain (text : List Char) : m Unit
  usage (asked : Bool) : m Unit

namespace CommandLine

def logName : List Char := "calculator.log".toList

def versionText : String := "smart-calculator 0.1.0"

def logComplaint : List Char := "Error: Failed to create calculator.log".toList

def openComplaint (path : List Char) : List Char :=
  "Error: Failed to open file ".toList ++ PathQuote.quote path

def abortComplaint : List Char := "Error: Session aborted".toList

section
variable {m : Type → Type} {ρ : Type} [Monad m] [Host m ρ] [ForIn m ρ (Option (List UInt8))]

/-- Hears a source piece by piece. A failure of reading or writing ends this badly. -/
def serve (console : Console Room) (source : ρ) : m Bool := do
  let mut now := console
  for piece? in source do
    match piece? with
    | none => return false
    | some piece =>
      let effect := now.hear (Console.lineText piece)
      unless ← Host.write effect.written do return false
      match effect.result with
      | .ok .more => now := effect.console
      | .ok .done => return true
      | .error _ => return false
  Host.write (now.print Console.goodbye.toList).written

def refuse (complaint : List Char) : m Nat := do
  Host.complain complaint
  return 1

def present (view : View) (json : Bool) (file : Option (List Char)) : m Nat := do
  let source? ← match file with
    | none => some <$> Host.input
    | some path => Host.open? path
  match source? with
  | none => refuse (openComplaint (file.getD []))
  | some source =>
    if ← serve (Console.start view json none) source then return 0
    refuse abortComplaint

/-- The log is made before the file is opened. -/
def attend (view : View) (file : Option (List Char)) (switches : Switches) : m Nat := do
  if switches.log then
    unless ← Host.create logName do return ← refuse logComplaint
  present view switches.json file

def perform (arguments : List (List Char)) : m Nat := do
  match Invocation.ofArguments? arguments with
  | none =>
    Host.usage false
    return 2
  | some .help =>
    Host.usage true
    return 0
  | some .version =>
    let _ ← Host.write (Utf8.encode (versionText.toList ++ ['\n']))
    return 0
  | some (.console view file switches) => attend view file switches

end
end CommandLine
end LineCalculator

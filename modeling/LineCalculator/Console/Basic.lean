import LineCalculator.Console.Output
import LineCalculator.Expression.TokenJson
import LineCalculator.Line
import LineCalculator.Text.Utf8

/- A console answers one line of text at a time and writes what it has to say. Its view says what an
   expression line shows; assignments, commands and faults are the same in every view. -/
namespace LineCalculator

inductive View where
  | value
  | tokens
  | postfixTokens
  deriving DecidableEq, Repr

inductive Demand where
  | more
  | done
  deriving DecidableEq, Repr

structure Console (ω : Type) where
  vars : Variables
  view : View
  json : Bool
  output : ω

structure Effect (ω α : Type) where
  written : List UInt8
  console : Console ω
  result : Except Fault α

def Effect.map {ω α β : Type} (f : α → β) (effect : Effect ω α) : Effect ω β :=
  { effect with result := effect.result.map f }

namespace Console
variable {ω : Type}

def helpText : String :=
  "The program calculates expressions over integers of any size.\n" ++
  "Supported operators: + - * / and parentheses; '-' and '+' also work as signs.\n" ++
  "Assign variables with name = value or name = other; names are Latin letters only.\n" ++
  "Commands: /help shows this text, /exit quits."

def unknownCommand : String := "Unknown command"

def goodbye : String := "Bye!"

def readFailed : Fault := .io "read failed"

def start (view : View) (json : Bool) (output : ω) : Console ω :=
  ⟨.empty, view, json, output⟩

def write [Output ω] (console : Console ω) (bytes : List UInt8) : Effect ω Unit :=
  let uptake := Output.put console.output bytes
  ⟨uptake.taken, { console with output := uptake.output },
    match uptake.failure with
    | none => .ok ()
    | some reason => .error (.io reason)⟩

def print [Output ω] (console : Console ω) (text : List Char) : Effect ω Unit :=
  console.write (Utf8.encode (text ++ ['\n']))

def display (console : Console ω) (tokens : List Token) : List Char :=
  if console.json then Token.jsonList tokens else Token.spell tokens

/-- The reply of a view that shows tokens. The line is judged first: an assignment is then carried out
    and shows nothing. -/
def replyTokens (console : Console ω) (tokens : List Char → Except Fault (List Token))
    (line : List Char) : Except Fault (Option (List Char)) × Variables :=
  let plain := Text.dropBlanks line
  match Request.ofLine plain with
  | .error fault => (.error fault, console.vars)
  | .ok (.assignment _ _) =>
    let (answer, vars) := Line.answer console.vars plain
    (answer.map fun _ => none, vars)
  | .ok (.expression _) => ((tokens plain).map (some ∘ console.display), console.vars)

def reply (console : Console ω) (line : List Char) :
    Except Fault (Option (List Char)) × Variables :=
  match console.view with
  | .value =>
    let (answer, vars) := Line.answer console.vars line
    (answer.map (·.map Decimal.ofInt), vars)
  | .tokens => console.replyTokens console.vars.tokens line
  | .postfixTokens => console.replyTokens console.vars.postfixTokens line

def obey [Output ω] (console : Console ω) (line : List Char) : Effect ω Demand :=
  if line = "/help".toList then (console.print helpText.toList).map fun _ => .more
  else if line = "/exit".toList then (console.print goodbye.toList).map fun _ => .done
  else (console.print unknownCommand.toList).map fun _ => .more

/-- What becomes of a reply, and of the variables that came with it. A fault of the line is printed; a
    fault of reading or writing ends the step. -/
def deliver [Output ω] (console : Console ω) (reply : Except Fault (Option (List Char)))
    (vars : Variables) : Effect ω Demand :=
  let after := { console with vars := vars }
  match reply with
  | .ok none => ⟨[], after, .ok .more⟩
  | .ok (some text) => (after.print text).map fun _ => .more
  | .error (.io reason) => ⟨[], after, .error (.io reason)⟩
  | .error fault => (after.print fault.message.toList).map fun _ => .more

/-- Blank lines are passed over, and a slash in the first column makes a command. -/
def hear [Output ω] (console : Console ω) (line : List Char) : Effect ω Demand :=
  if line.all Text.isBlank then ⟨[], console, .ok .more⟩
  else if line.head? = some '/' then console.obey line
  else
    let (reply, vars) := console.reply line
    console.deliver reply vars

end Console
end LineCalculator

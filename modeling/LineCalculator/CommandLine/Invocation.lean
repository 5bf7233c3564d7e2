import LineCalculator.Console.Basic

/- The arguments of the program, read from left to right. The first argument that has no place, or
   that asks for the version or for help, decides without a look at the later ones. -/
namespace LineCalculator

structure Switches where
  json : Bool
  log : Bool
  deriving DecidableEq, Repr

inductive Invocation where
  | version
  | help
  | console (view : View) (file : Option (List Char)) (switches : Switches)
  deriving DecidableEq, Repr

inductive Argument where
  | separator
  | long (name : List Char)
  | short (letter : Char)
  | plain (text : List Char)
  deriving DecidableEq, Repr

def Argument.ofText : List Char → Argument
  | ['-', '-'] => .separator
  | '-' :: '-' :: name => .long name
  | '-' :: letter :: _ => .short letter
  | text => .plain text

namespace Switches

def none : Switches := ⟨false, false⟩

/-- A switch is refused when it is given a second time on the same side. -/
def add? (switches : Switches) (name : List Char) : Option Switches :=
  if name = "json".toList ∧ switches.json = false then some { switches with json := true }
  else if name = "log".toList ∧ switches.log = false then some { switches with log := true }
  else Option.none

def union (a b : Switches) : Switches := ⟨a.json || b.json, a.log || b.log⟩

end Switches

def View.ofCommand? (text : List Char) : Option View :=
  if text = "evaluate".toList then some .value
  else if text = "tokenize".toList then some .tokens
  else if text = "postfix".toList then some .postfixTokens
  else none

namespace Invocation

def addFile? (file : Option (List Char)) (text : List Char) : Option (List Char) :=
  if file = none ∧ text ≠ [] then some text else none

/-- The arguments behind a command. Once a separator has been read, all are files. -/
def ofCommand? (view : View) (before : Switches) (switches : Switches)
    (file : Option (List Char)) (separated : Bool) : List (List Char) → Option Invocation
  | [] => some (.console view file (before.union switches))
  | argument :: rest =>
    let asFile :=
      match addFile? file argument with
      | some name => ofCommand? view before switches (some name) separated rest
      | none => none
    if separated then asFile
    else
      match Argument.ofText argument with
      | .separator => ofCommand? view before switches file true rest
      | .long name =>
        if name = "help".toList then some .help
        else
          match switches.add? name with
          | some more => ofCommand? view before more file separated rest
          | none => none
      | .short letter => if letter = 'h' then some .help else none
      | .plain _ => asFile

def isHelpTopic : List (List Char) → Bool
  | [] => true
  | [topic] => (View.ofCommand? topic).isSome || topic = "help".toList
  | _ => false

/-- The arguments in front of a command. Without a command the values of the standard input are
    shown, and nothing may follow a separator. -/
def ofSwitches? (switches : Switches) : List (List Char) → Option Invocation
  | [] => some (.console .value none switches)
  | argument :: rest =>
    match Argument.ofText argument with
    | .separator => if rest = [] then some (.console .value none switches) else none
    | .long name =>
      if name = "version".toList then some .version
      else if name = "help".toList then some .help
      else
        match switches.add? name with
        | some more => ofSwitches? more rest
        | none => none
    | .short letter =>
      if letter = 'V' then some .version else if letter = 'h' then some .help else none
    | .plain text =>
      match View.ofCommand? text with
      | some view => ofCommand? view switches .none none false rest
      | none => if text = "help".toList ∧ isHelpTopic rest then some .help else none

def ofArguments? (arguments : List (List Char)) : Option Invocation :=
  ofSwitches? .none arguments

end Invocation
end LineCalculator

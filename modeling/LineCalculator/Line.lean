import LineCalculator.Expression.Value
import LineCalculator.Request
import LineCalculator.Text.Blank
import LineCalculator.Variables.Basic

/- What a line does. An expression has a value and changes nothing; an assignment has no value and
   changes one variable; a line with a fault changes nothing. -/
namespace LineCalculator

namespace Variables

def tokens (vars : Variables) (text : List Char) : Except Fault (List Token) :=
  Token.ofText vars.get? (Text.dropBlanks text)

def postfixTokens (vars : Variables) (text : List Char) : Except Fault (List Token) :=
  Postfix.ofText vars.get? (Text.dropBlanks text)

def value (vars : Variables) (text : List Char) : Except Fault Int :=
  vars.postfixTokens text >>= Postfix.value

@[simp] theorem tokens_dropBlanks (vars : Variables) (text : List Char) :
    vars.tokens (Text.dropBlanks text) = vars.tokens text := by
  simp [tokens]

@[simp] theorem postfixTokens_dropBlanks (vars : Variables) (text : List Char) :
    vars.postfixTokens (Text.dropBlanks text) = vars.postfixTokens text := by
  simp [postfixTokens]

@[simp] theorem value_dropBlanks (vars : Variables) (text : List Char) :
    vars.value (Text.dropBlanks text) = vars.value text := by
  simp [value]

def rightValue (vars : Variables) : RightSide → Except Fault Int
  | .integer n => .ok n
  | .copyOf name =>
    match vars.get? name with
    | some n => .ok n
    | none => .error .unknownVariable

end Variables

namespace Line

def answer (vars : Variables) (line : List Char) : Except Fault (Option Int) × Variables :=
  match Request.ofLine (Text.dropBlanks line) with
  | .error fault => (.error fault, vars)
  | .ok (.expression text) => ((vars.value text).map some, vars)
  | .ok (.assignment target right) =>
    match vars.rightValue right with
    | .error fault => (.error fault, vars)
    | .ok value => (.ok none, vars.assign target value)

def run (vars : Variables) :
    List (List Char) → List (Except Fault (Option Int) × Variables)
  | [] => []
  | line :: rest =>
    let step := answer vars line
    step :: run step.2 rest

end Line
end LineCalculator

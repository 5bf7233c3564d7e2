import LineCalculator.Fault
import LineCalculator.Name
import LineCalculator.Text.Decimal

/- What a line without blanks asks for, told by its equals signs alone: none is an expression, one
   is an assignment. -/
namespace LineCalculator

inductive RightSide where
  | integer (value : Int)
  | copyOf (name : Name)
  deriving DecidableEq, Repr

inductive Request where
  | expression (text : List Char)
  | assignment (target : Name) (right : RightSide)
  deriving DecidableEq, Repr

def RightSide.ofText? (text : List Char) : Option RightSide :=
  match Decimal.readInt? text with
  | some value => some (.integer value)
  | none => if Name.isWord text then some (.copyOf text) else none

/-- The left side is judged first, so it is to blame when both sides are wrong. -/
def Request.ofLine (line : List Char) : Except Fault Request :=
  match line.count '=' with
  | 0 => .ok (.expression line)
  | 1 =>
    let target := line.takeWhile (· ≠ '=')
    if Name.isWord target then
      match RightSide.ofText? (line.dropWhile (· ≠ '=')).tail with
      | some right => .ok (.assignment target right)
      | none => .error .invalidAssignment
    else .error .invalidIdentifier
  | _ => .error .invalidAssignment

end LineCalculator

import LineCalculator.Name
import LineCalculator.Text.Decimal
import LineCalculator.Expression.Operation

/- The tokens of an expression. A variable carries the value it had when it was read, so a list of
   tokens means the same whatever is assigned later. -/
namespace LineCalculator

inductive Token where
  | number (value : Int)
  | reference (name : Name) (value : Int)
  | operation (operation : Operation)
  | sign (sign : Sign)
  | opening
  | closing
  deriving DecidableEq, Repr

namespace Token

def rank : Token → Nat
  | .operation o => o.rank
  | .sign _ => Sign.rank
  | _ => 0

def isOperand : Token → Bool
  | .number _ | .reference _ _ => true
  | _ => false

def isParenthesis : Token → Bool
  | .opening | .closing => true
  | _ => false

def isSign : Token → Bool
  | .sign _ => true
  | _ => false

/-- After such a token an operand is complete: a plus or minus that follows is an operation. -/
def endsOperand : Token → Bool
  | .number _ | .reference _ _ | .closing => true
  | _ => false

def value? : Token → Option Int
  | .number n => some n
  | .reference _ n => some n
  | _ => none

def spelling : Token → List Char
  | .number n => Decimal.ofInt n
  | .reference name _ => name
  | .operation o => [o.symbol]
  | .sign s => [s.symbol]
  | .opening => ['(']
  | .closing => [')']

def spell (tokens : List Token) : List Char := [' '].intercalate (tokens.map spelling)

theorem endsOperand_eq (t : Token) : t.endsOperand = (t.isOperand || decide (t = .closing)) := by
  cases t <;> rfl

end Token
end LineCalculator

import LineCalculator.Fault

/- The four operations between two integers and the two signs in front of one. -/
namespace LineCalculator

inductive Operation where
  | add
  | subtract
  | multiply
  | divide
  deriving DecidableEq, Repr

namespace Operation

def symbol : Operation → Char
  | .add => '+'
  | .subtract => '-'
  | .multiply => '*'
  | .divide => '/'

def rank : Operation → Nat
  | .add | .subtract => 1
  | .multiply | .divide => 2

/-- Division drops the fraction, so it goes toward zero; a zero divisor is a fault. -/
def apply (left right : Int) : Operation → Except Fault Int
  | .add => .ok (left + right)
  | .subtract => .ok (left - right)
  | .multiply => .ok (left * right)
  | .divide => if right = 0 then .error .divisionByZero else .ok (left.tdiv right)

theorem apply_eq_error_iff (left right : Int) (operation : Operation) (fault : Fault) :
    operation.apply left right = .error fault ↔
      operation = .divide ∧ right = 0 ∧ fault = .divisionByZero := by
  cases operation <;> simp [apply]
  split <;> simp_all [eq_comm]

end Operation

inductive Sign where
  | plus
  | minus
  deriving DecidableEq, Repr

namespace Sign

def symbol : Sign → Char
  | .plus => '+'
  | .minus => '-'

def rank : Nat := 4

def apply (operand : Int) : Sign → Int
  | .plus => operand
  | .minus => -operand

theorem rank_above (operation : Operation) : operation.rank < rank := by
  cases operation <;> decide

end Sign
end LineCalculator

/- The faults of a line, and the one line of text that reports each. -/
namespace LineCalculator

inductive Fault where
  | invalidIdentifier
  | invalidAssignment
  | unknownVariable
  | invalidExpression
  | divisionByZero
  | io (reason : String)
  deriving DecidableEq, Repr

def Fault.message : Fault → String
  | .invalidIdentifier => "Invalid identifier"
  | .invalidAssignment => "Invalid assignment"
  | .unknownVariable => "Unknown variable"
  | .invalidExpression => "Invalid expression"
  | .divisionByZero => "Division by zero"
  | .io reason => reason

end LineCalculator

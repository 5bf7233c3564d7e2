import LineCalculator.Expression.Value

/- An evaluator that reduces one list of tokens after another. A fault leaves what it had on its stack;
   the next evaluation begins by clearing it. -/
namespace LineCalculator

structure Evaluator where
  stack : List Int
  deriving DecidableEq, Repr

namespace Evaluator

/-- Steps of an evaluator. What a step has taken before its fault is not put back. -/
abbrev Step := EStateM Fault Evaluator

def fresh : Evaluator := ⟨[]⟩

def push (n : Int) : Step Unit := modify fun e => ⟨n :: e.stack⟩

def pop : Step Int := do
  match (← get).stack with
  | [] => throw .invalidExpression
  | n :: below =>
    set (Evaluator.mk below)
    return n

def accept : Token → Step Unit
  | .number n => push n
  | .reference _ n => push n
  | .operation o => do
    let right ← pop
    let left ← pop
    push (← ofExcept (o.apply left right))
  | .sign s => do
    push (s.apply (← pop))
  | .opening | .closing => throw .invalidExpression

def conclude : Step Int := do
  let value ← pop
  if (← get).stack.isEmpty then return value
  set fresh
  throw .invalidExpression

def reduce (tokens : List Token) : Step Int := do
  set fresh
  tokens.forM accept
  conclude

def evaluate (e : Evaluator) (tokens : List Token) : Except Fault Int × Evaluator :=
  match (reduce tokens).run e with
  | .ok n after => (.ok n, after)
  | .error fault after => (.error fault, after)

def evaluateAll (e : Evaluator) : List (List Token) → List (Except Fault Int) × Evaluator
  | [] => ([], e)
  | tokens :: rest =>
    let (answer, after) := e.evaluate tokens
    let (answers, last) := after.evaluateAll rest
    (answer :: answers, last)

end Evaluator
end LineCalculator

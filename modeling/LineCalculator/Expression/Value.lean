import LineCalculator.Expression.Postfix

/- The value of tokens in postfix order. Tokens are taken from left to right over a stack of
   integers, so the leftmost fault is the one reported. -/
namespace LineCalculator.Postfix

/-- One token over the integers so far, the latest first. A sign or an operation without operands
    and a parenthesis are refused. -/
def push (stack : List Int) (token : Token) : Except Fault (List Int) :=
  match token, stack with
  | .number n, _ => .ok (n :: stack)
  | .reference _ n, _ => .ok (n :: stack)
  | .sign s, operand :: below => .ok (s.apply operand :: below)
  | .operation o, right :: left :: below => (o.apply left right).map (· :: below)
  | _, _ => .error .invalidExpression

def single : List Int → Except Fault Int
  | [n] => .ok n
  | _ => .error .invalidExpression

def value (tokens : List Token) : Except Fault Int := tokens.foldlM push [] >>= single

end LineCalculator.Postfix

import LineCalculator.Expression.Reading

/- Postfix order: every operation and sign after its operands, and no parentheses. Tokens whose turn
   has not come wait on a stack. Operands and operations never move an open parenthesis, so what
   stands before a group is untouched until the group closes. -/
namespace LineCalculator

/-- The waiting tokens, the last one that came first, and the placed ones, latest first. -/
structure Yard where
  stack : List Token
  placed : List Token
  deriving DecidableEq, Repr

namespace Yard

def empty : Yard := ⟨[], []⟩

def push (token : Token) (yard : Yard) : Yard := { yard with stack := token :: yard.stack }

def place (token : Token) (yard : Yard) : Yard := { yard with placed := token :: yard.placed }

def release (leaves : Token → Bool) (yard : Yard) : Yard :=
  ⟨yard.stack.dropWhile leaves, (yard.stack.takeWhile leaves).reverse ++ yard.placed⟩

/-- An operand is placed and frees the signs in front of it; an operation frees all that bind at
    least as tight; a closing parenthesis frees its group and drops the opening one. -/
def step (yard : Yard) (token : Token) : Except Fault Yard :=
  match token with
  | .number _ | .reference _ _ => .ok ((yard.place token).release Token.isSign)
  | .operation o => .ok ((yard.release fun top => o.rank ≤ top.rank).push token)
  | .sign _ | .opening => .ok (yard.push token)
  | .closing =>
    let group := yard.release (· ≠ .opening)
    match group.stack with
    | [] => .error .invalidExpression
    | _ :: below => .ok { group with stack := below }

def finish (yard : Yard) : Except Fault (List Token) :=
  if yard.stack.any Token.isParenthesis then .error .invalidExpression
  else .ok (yard.placed.reverse ++ yard.stack)

end Yard

structure Conversion where
  result : Except Fault (List Token)
  unread : List (Except Fault Token)
  deriving Repr

def Yard.convert (yard : Yard) : List (Except Fault Token) → Conversion
  | [] => ⟨yard.finish, []⟩
  | .error fault :: rest => ⟨.error fault, rest⟩
  | .ok token :: rest =>
    match yard.step token with
    | .error fault => ⟨.error fault, rest⟩
    | .ok next => next.convert rest

namespace Postfix

def ofItems (items : List (Except Fault Token)) : Conversion := Yard.empty.convert items

def ofTokens (tokens : List Token) : Except Fault (List Token) :=
  (ofItems (tokens.map .ok)).result

/-- Reads a text and converts it in one pass, so a fault of the order may come before one of the
    reading. -/
def ofText (lookup : Lookup) (text : List Char) : Except Fault (List Token) :=
  (ofItems (Token.items lookup text)).result

end Postfix
end LineCalculator

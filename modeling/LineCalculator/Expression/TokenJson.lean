import LineCalculator.Expression.Token
import LineCalculator.Text.JsonString

/- Tokens as compact JSON text. Integers are written as strings, so no reader loses digits. -/
namespace LineCalculator

def Operation.label : Operation → String
  | .add => "Add"
  | .subtract => "Subtract"
  | .multiply => "Multiply"
  | .divide => "Divide"

def Sign.label : Sign → String
  | .plus => "Plus"
  | .minus => "Minus"

namespace Token
open JsonString

def member (key : String) (value : List Char) : List Char :=
  '\x7b' :: quote key.toList ++ ':' :: value ++ ['\x7d']

def json : Token → List Char
  | .number n => member "Number" (quote (Decimal.ofInt n))
  | .reference name n =>
    member "Identifier" ('\x7b' :: quote "name".toList ++ ':' :: quote name ++
      ',' :: quote "value".toList ++ ':' :: quote (Decimal.ofInt n) ++ ['\x7d'])
  | .operation o => member "BinaryOp" (quote o.label.toList)
  | .sign s => member "UnaryOp" (quote s.label.toList)
  | .opening => quote "LeftParen".toList
  | .closing => quote "RightParen".toList

def jsonList (tokens : List Token) : List Char :=
  '[' :: [','].intercalate (tokens.map json) ++ [']']

end Token
end LineCalculator

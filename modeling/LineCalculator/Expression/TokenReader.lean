import LineCalculator.Expression.TokenJson

/- Tokens read back from their JSON text. A reader takes what it reads from the front of a text, and
   fails where the text is of another form. -/
namespace LineCalculator

abbrev JsonReader := StateT (List Char) Option

namespace JsonString

def unescape? : Char → Option Char
  | '"' => some '"'
  | '\\' => some '\\'
  | 'b' => some (Char.ofNat 0x08)
  | 't' => some (Char.ofNat 0x09)
  | 'n' => some (Char.ofNat 0x0A)
  | 'f' => some (Char.ofNat 0x0C)
  | 'r' => some (Char.ofNat 0x0D)
  | _ => none

def hexValue? (digit : Char) : Option Nat := (List.range 16).find? fun n => hexDigit n = digit

def body? : List Char → Option (List Char × List Char)
  | [] => none
  | '"' :: rest => some ([], rest)
  | '\\' :: 'u' :: '0' :: '0' :: high :: low :: rest => do
    let sixteens ← hexValue? high
    let ones ← hexValue? low
    (body? rest).map (Prod.map (Char.ofNat (16 * sixteens + ones) :: ·) id)
  | '\\' :: letter :: rest => do
    let c ← unescape? letter
    (body? rest).map (Prod.map (c :: ·) id)
  | c :: rest =>
    if c ≠ '\\' ∧ 0x20 ≤ c.toNat then (body? rest).map (Prod.map (c :: ·) id) else none

end JsonString

namespace JsonReader
variable {α : Type}

def expect (text : List Char) : JsonReader Unit := fun input =>
  if text <+: input then some ((), input.drop text.length) else none

def string : JsonReader (List Char) := do
  expect ['"']
  JsonString.body?

def integer : JsonReader Int := do
  let text ← string
  Decimal.readInt? text

def labelled (label : α → String) (choices : List α) : JsonReader α := do
  let text ← string
  choices.find? fun a => (label a).toList = text

end JsonReader

namespace Token
open JsonString JsonReader

def ofKey (key : List Char) : JsonReader Token :=
  if key = "Number".toList then number <$> integer
  else if key = "Identifier".toList then do
    expect ('\x7b' :: quote "name".toList ++ [':'])
    let name ← string
    expect (',' :: quote "value".toList ++ [':'])
    let value ← integer
    expect ['\x7d']
    return reference name value
  else if key = "BinaryOp".toList then
    operation <$> labelled Operation.label [.add, .subtract, .multiply, .divide]
  else if key = "UnaryOp".toList then sign <$> labelled Sign.label [.plus, .minus]
  else failure

def ofMember : JsonReader Token := do
  expect ['\x7b']
  let key ← string
  expect [':']
  let token ← ofKey key
  expect ['\x7d']
  return token

def parentheses : List (String × Token) := [("LeftParen", opening), ("RightParen", closing)]

def parenthesis : JsonReader Token := Prod.snd <$> labelled Prod.fst parentheses

def ofJson : JsonReader Token := ofMember <|> parenthesis

def laterOfJson : Nat → JsonReader (List Token)
  | 0 => failure
  | most + 1 =>
    (do expect [']']; return []) <|> do
      expect [',']
      let token ← ofJson
      let others ← laterOfJson most
      return token :: others

def listOfJson (most : Nat) : JsonReader (List Token) := do
  expect ['[']
  (do expect [']']; return []) <|> do
    let token ← ofJson
    let others ← laterOfJson most
    return token :: others

def ofJsonList? (text : List Char) : Option (List Token) :=
  match (listOfJson text.length).run text with
  | some (tokens, []) => some tokens
  | _ => none

end Token
end LineCalculator

import LineCalculator.Expression.Lexeme
import LineCalculator.Expression.Token

/- Reading lexemes as tokens, from left to right. A cursor is read one token at a time; after the
   first lexeme that is no token in its place, nothing more is read. -/
namespace LineCalculator

abbrev Lookup := Name → Option Int

/-- What one lexeme gave, and the name it asked for, if it was a word. -/
structure Reading where
  item : Except Fault Token
  asked : Option Name
  deriving Repr

/-- A plus or minus is an operation exactly after an operand; a times or divide may stand nowhere
    else. Every mark but the four symbols and the parentheses is refused. -/
def Token.ofMark (afterOperand : Bool) (c : Char) : Except Fault Token :=
  if c = '+' then .ok (if afterOperand then .operation .add else .sign .plus)
  else if c = '-' then .ok (if afterOperand then .operation .subtract else .sign .minus)
  else if c = '*' ∧ afterOperand then .ok (.operation .multiply)
  else if c = '/' ∧ afterOperand then .ok (.operation .divide)
  else if c = '(' then .ok .opening
  else if c = ')' then .ok .closing
  else .error .invalidExpression

def Lexeme.read (lookup : Lookup) (afterOperand : Bool) : Lexeme → Reading
  | .digits text =>
    match Decimal.readNat? text with
    | some n => ⟨.ok (.number n), none⟩
    | none => ⟨.error .invalidExpression, none⟩
  | .word name =>
    match lookup name with
    | some value => ⟨.ok (.reference name value), some name⟩
    | none => ⟨.error .invalidExpression, some name⟩
  | .mark c => ⟨Token.ofMark afterOperand c, none⟩

/-- The lexemes not yet read, and whether the token before them ended an operand. -/
structure Cursor where
  rest : List Lexeme
  afterOperand : Bool
  deriving DecidableEq, Repr

namespace Cursor

def ofText (text : List Char) : Cursor := ⟨Lexeme.cut text, false⟩

def next (lookup : Lookup) (cursor : Cursor) : Option Reading × Cursor :=
  match cursor.rest with
  | [] => (none, cursor)
  | lexeme :: rest =>
    let reading := lexeme.read lookup cursor.afterOperand
    match reading.item with
    | .ok token => (some reading, ⟨rest, token.endsOperand⟩)
    | .error _ => (some reading, ⟨[], cursor.afterOperand⟩)

def calls (lookup : Lookup) (cursor : Cursor) : Nat → List (Option Reading)
  | 0 => []
  | n + 1 =>
    let (reading, after) := cursor.next lookup
    reading :: after.calls lookup n

end Cursor

def Reading.all (lookup : Lookup) (afterOperand : Bool) : List Lexeme → List Reading
  | [] => []
  | lexeme :: rest =>
    let reading := lexeme.read lookup afterOperand
    match reading.item with
    | .ok token => reading :: Reading.all lookup token.endsOperand rest
    | .error _ => [reading]

/-- The tokens of a text as a source: each token in order, and a fault as its last item. -/
def Token.items (lookup : Lookup) (text : List Char) : List (Except Fault Token) :=
  (Reading.all lookup false (Lexeme.cut text)).map Reading.item

def Token.ofText (lookup : Lookup) (text : List Char) : Except Fault (List Token) :=
  (Token.items lookup text).mapM id

end LineCalculator

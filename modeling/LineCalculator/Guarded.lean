import LineCalculator.Expression.Scanner
import LineCalculator.Line
import LineCalculator.Request.Bytewise

/- The way of a line from its bytes to its answer, step by step, with the steps that rely on what an earlier one
   has checked. Where such a step finds that it should not have, it stops and names its guard. -/
namespace LineCalculator

/-- What a step relies on: digits that were scanned or passed as a literal write a number, the bytes of a lexeme
    are a text, a counted equals sign parts the line, something waits where it is popped, and neither a closing
    parenthesis at the end, nor one in postfix order, nor a zero divisor has come through. -/
inductive Guard where
  | scannedNumber
  | literalNumber
  | lexemeText
  | equalsSign
  | waitingToken
  | noClosing
  | noParenthesis
  | divisor
  deriving DecidableEq, Repr

/-- What a line stops at: a fault of its own, or a guard that a step relied on in vain. -/
inductive Stop where
  | fault (fault : Fault)
  | guard (guard : Guard)
  deriving DecidableEq, Repr

namespace Guard

def need {α : Type} (guard : Guard) : Option α → Except Stop α
  | some x => .ok x
  | none => .error (.guard guard)

end Guard

namespace Guarded

theorem isDigit_zero : Scanner.isDigit 0 = false := rfl

theorem isLetter_zero : Scanner.isLetter 0 = false := rfl

section
variable (parse : List UInt8 → Option Int) (lookup : Lookup)

def scanNumber (s : Scanner) : Except Stop Token × Scanner :=
  let s := s.skip Scanner.isDigit isDigit_zero
  ((Guard.scannedNumber.need (parse s.slice)).map .number, s)

def scanWord (s : Scanner) : Except Stop Token × Scanner :=
  let s := s.skip Scanner.isLetter isLetter_zero
  let token := do
    let name ← Guard.lexemeText.need (Utf8.decode? s.slice)
    match lookup name with
    | some value => .ok (.reference name value)
    | none => .error (.fault .invalidExpression)
  (token, s)

def scanToken (s : Scanner) : Except Stop Token × Scanner :=
  let byte := s.peek
  let s := s.advance
  if Scanner.isDigit byte then scanNumber parse s
  else if Scanner.isLetter byte then scanWord lookup s
  else ((Token.ofMark s.afterOperand (Char.ofUInt8 byte)).mapError .fault, s)

theorem scanToken_progress (s : Scanner) :
    (scanToken parse lookup s).2.source = s.source ∧ s.current < (scanToken parse lookup s).2.current := by
  simp only [scanToken]
  split
  · exact s.advance.skip_progress Scanner.isDigit isDigit_zero
  · split
    · exact s.advance.skip_progress Scanner.isLetter isLetter_zero
    · exact ⟨rfl, Nat.lt_succ_self s.current⟩

def feed {σ : Type} (take : σ → Token → Except Stop σ) (state : σ) (s : Scanner) : Except Stop σ :=
  if s.atEnd then .ok state
  else
    let scanned := scanToken parse lookup { s with start := s.current }
    match scanned.1 with
    | .error stop => .error stop
    | .ok token =>
      match take state token with
      | .error stop => .error stop
      | .ok state => feed take state { scanned.2 with afterOperand := token.endsOperand }
termination_by s.source.size - s.current
decreasing_by
  have progress := scanToken_progress parse lookup { s with start := s.current }
  have inside : s.current < s.source.size := by simpa [Scanner.atEnd] using ‹¬s.atEnd = true›
  simp only at progress ⊢
  rw [progress.1]
  omega

def tokens (text : List Char) : Except Stop (List Token) :=
  feed parse lookup (fun tokens token => .ok (tokens ++ [token])) [] (.ofBytes (Utf8.encode text))

end

def popToOutput (yard : Yard) : Except Stop Yard :=
  match yard.stack with
  | [] => .error (.guard .waitingToken)
  | top :: below => .ok ⟨below, top :: yard.placed⟩

def popWhile (leaves : Token → Bool) (yard : Yard) : Except Stop Yard :=
  if yard.stack.head?.any leaves then
    match _popped : popToOutput yard with
    | .error stop => .error stop
    | .ok next => popWhile leaves next
  else .ok yard
termination_by yard.stack.length
decreasing_by
  unfold popToOutput at _popped
  split at _popped
  · contradiction
  · next stack =>
    cases _popped
    rw [stack]
    exact Nat.lt_succ_self _

def step (yard : Yard) (token : Token) : Except Stop Yard :=
  match token with
  | .number _ | .reference _ _ => popWhile Token.isSign (yard.place token)
  | .operation o => (popWhile (fun top => o.rank ≤ top.rank) yard).map (·.push token)
  | _ => (yard.step token).mapError .fault

def drain (placed : List Token) : List Token → Except Stop (List Token)
  | [] => .ok placed.reverse
  | .opening :: _ => .error (.fault .invalidExpression)
  | .closing :: _ => .error (.guard .noClosing)
  | top :: below => drain (top :: placed) below

def quotient? (left right : Int) : Option Int := if right = 0 then none else some (left.tdiv right)

def push (stack : List Int) (token : Token) : Except Stop (List Int) :=
  match token, stack with
  | .opening, _ | .closing, _ => .error (.guard .noParenthesis)
  | .operation .divide, right :: left :: below =>
    if right = 0 then .error (.fault .divisionByZero)
    else (Guard.divisor.need (quotient? left right)).map (· :: below)
  | _, _ => (Postfix.push stack token).mapError .fault

section
variable (parse : List UInt8 → Option Int)

def postfixTokens (lookup : Lookup) (text : List Char) : Except Stop (List Token) := do
  let yard ← feed parse lookup step Yard.empty (.ofBytes (Utf8.encode text))
  drain yard.placed yard.stack

def value (lookup : Lookup) (text : List Char) : Except Stop Int := do
  let tokens ← postfixTokens parse lookup text
  let stack ← tokens.foldlM push []
  (Postfix.single stack).mapError .fault

def literal? (text : List Char) : Except Stop (Option Int) :=
  let (negative, digits) := Bytewise.splitSign (Utf8.encode text)
  if digits.isEmpty || !digits.all Scanner.isDigit then .ok none
  else (Guard.literalNumber.need (parse digits)).map fun n => some (if negative then -n else n)

def rightSide (text : List Char) : Except Stop RightSide := do
  match ← literal? parse text with
  | some value => .ok (.integer value)
  | none => if Bytewise.isWord text then .ok (.copyOf text) else .error (.fault .invalidAssignment)

def request (line : List Char) : Except Stop Request :=
  match (Utf8.encode line).count '='.toUInt8 with
  | 0 => .ok (.expression line)
  | 1 => do
    let (target, right) ← Guard.equalsSign.need (Bytewise.parts? line)
    if Bytewise.isWord target then (rightSide parse right).map (.assignment target ·)
    else .error (.fault .invalidIdentifier)
  | _ => .error (.fault .invalidAssignment)

def answer (vars : Variables) (line : List Char) : Except Stop (Option Int) × Variables :=
  match request parse (Text.dropBlanks line) with
  | .error stop => (.error stop, vars)
  | .ok (.expression text) => ((value parse vars.get? text).map some, vars)
  | .ok (.assignment target right) =>
    match vars.rightValue right with
    | .error fault => (.error (.fault fault), vars)
    | .ok value => (.ok none, vars.assign target value)

end
end Guarded
end LineCalculator

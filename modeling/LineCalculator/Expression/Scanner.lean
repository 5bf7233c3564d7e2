import LineCalculator.Expression.Reading
import LineCalculator.Text.Utf8

/- Reading the tokens of a line from its bytes, in one pass. Behind the last byte a scanner sees the byte 0,
   which is of no class, so a run ends there at the latest. After a fault nothing more is read. -/
namespace LineCalculator

/-- The bytes of a line, where the lexeme in hand begins, how far the bytes have been examined, and whether
    the last token ended an operand. -/
structure Scanner where
  source : Array UInt8
  start : Nat
  current : Nat
  afterOperand : Bool
  deriving Repr

namespace Scanner

def ofBytes (source : List UInt8) : Scanner := ⟨source.toArray, 0, 0, false⟩

def atEnd (s : Scanner) : Bool := s.source.size ≤ s.current

def peek (s : Scanner) : UInt8 := s.source.getD s.current 0

def advance (s : Scanner) : Scanner := { s with current := s.current + 1 }

def isDigit (b : UInt8) : Bool := (Char.ofUInt8 b).isDigit

def isLetter (b : UInt8) : Bool := (Char.ofUInt8 b).isAlpha

theorem peek_eq_zero_of_atEnd {s : Scanner} (h : s.source.size ≤ s.current) : s.peek = 0 := by
  simp [peek, h]

def skip (belongs : UInt8 → Bool) (ends : belongs 0 = false) (s : Scanner) : Scanner :=
  if _more : belongs s.peek = true then s.advance.skip belongs ends else s
termination_by s.source.size - s.current
decreasing_by
  have before : s.current < s.source.size := by
    by_cases after : s.source.size ≤ s.current
    · rw [peek_eq_zero_of_atEnd after, ends] at _more
      contradiction
    · exact Nat.lt_of_not_le after
  simp only [advance]
  omega

theorem skip_progress (belongs : UInt8 → Bool) (ends : belongs 0 = false) (s : Scanner) :
    (s.skip belongs ends).source = s.source ∧ s.current ≤ (s.skip belongs ends).current := by
  induction s using skip.induct belongs ends with
  | case1 s more ih =>
    rw [skip, dif_pos more]
    exact ⟨ih.1, Nat.le_of_succ_le ih.2⟩
  | case2 s stop =>
    rw [skip, dif_neg stop]
    exact ⟨rfl, Nat.le_refl _⟩

def slice (s : Scanner) : List UInt8 := (s.source.extract s.start s.current).toList

def scanNumber (s : Scanner) : Reading × Scanner :=
  let s := s.skip isDigit rfl
  match (Utf8.decode? s.slice).bind Decimal.readNat? with
  | some n => (⟨.ok (.number n), none⟩, s)
  | none => (⟨.error .invalidExpression, none⟩, s)

def scanWord (lookup : Lookup) (s : Scanner) : Reading × Scanner :=
  let s := s.skip isLetter rfl
  let name := (Utf8.decode? s.slice).getD []
  match lookup name with
  | some value => (⟨.ok (.reference name value), some name⟩, s)
  | none => (⟨.error .invalidExpression, some name⟩, s)

def scanToken (lookup : Lookup) (s : Scanner) : Reading × Scanner :=
  let byte := s.peek
  let s := s.advance
  if isDigit byte then s.scanNumber
  else if isLetter byte then s.scanWord lookup
  else (⟨Token.ofMark s.afterOperand (Char.ofUInt8 byte), none⟩, s)

def next (lookup : Lookup) (s : Scanner) : Option Reading × Scanner :=
  if s.atEnd then (none, s)
  else
    let (reading, s) := scanToken lookup { s with start := s.current }
    match reading.item with
    | .ok token => (some reading, { s with afterOperand := token.endsOperand })
    | .error _ => (some reading, { s with current := s.source.size })

def calls (lookup : Lookup) (s : Scanner) : Nat → List (Option Reading)
  | 0 => []
  | n + 1 =>
    let (reading, after) := s.next lookup
    reading :: after.calls lookup n

end Scanner
end LineCalculator

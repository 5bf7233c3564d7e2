import LineCalculator.Proofs.Expression.Meaning

/- Where a text cannot be read as tokens, said of its characters and lexemes alone, and whether its
   parentheses match. A text has tokens exactly when it has no bad place, and their parentheses match
   exactly when those of the text do. -/
namespace LineCalculator

namespace Lexeme

def endsOperand : Lexeme → Bool
  | .digits _ | .word _ => true
  | .mark c => c = ')'

/-- Whether an operand has ended behind the lexemes, given whether one had in front of them. -/
def endedBy (ended : Bool) (before : List Lexeme) : Bool :=
  (before.getLast?.map endsOperand).getD ended

/-- No token can be read here: a mark that no expression has, a times or divide with nothing on its left,
    or a word that has no value. -/
inductive Bad (lookup : Lookup) (ended : Bool) : Lexeme → Prop where
  | foreign {c : Char} (strange : c ∉ ['+', '-', '*', '/', '(', ')']) : Bad lookup ended (.mark c)
  | unled {c : Char} (tight : c = '*' ∨ c = '/') (fresh : ended = false) : Bad lookup ended (.mark c)
  | unknown {name : Name} (unbound : lookup name = none) : Bad lookup ended (.word name)

def Good (lookup : Lookup) (ended : Bool) (lexemes : List Lexeme) : Prop :=
  ∀ before l rest, lexemes = before ++ l :: rest → ¬ l.Bad lookup (endedBy ended before)

variable {lookup : Lookup} {ended : Bool} {l : Lexeme} {t : Token} {lexemes : List Lexeme}

@[simp] theorem endedBy_cons (ended : Bool) (l : Lexeme) (before : List Lexeme) :
    endedBy ended (l :: before) = endedBy l.endsOperand before := by
  cases before with
  | nil => rfl
  | cons m others => simp [endedBy, List.getLast?_cons]

theorem good_nil : Good lookup ended [] := by
  intro before l rest parts
  simp at parts

theorem good_cons_iff :
    Good lookup ended (l :: lexemes) ↔ ¬ l.Bad lookup ended ∧ Good lookup l.endsOperand lexemes := by
  constructor
  · intro good
    refine ⟨good [] l lexemes rfl, ?_⟩
    intro before m rest parts
    rw [← endedBy_cons ended]
    exact good (l :: before) m rest (by rw [parts, List.cons_append])
  · rintro ⟨fine, good⟩ before m rest parts
    cases before with
    | nil =>
      obtain ⟨rfl, rfl⟩ := List.cons.inj parts
      exact fine
    | cons first before =>
      obtain ⟨rfl, later⟩ := List.cons.inj parts
      rw [endedBy_cons]
      exact good before m rest later

instance (lookup : Lookup) (ended : Bool) : DecidablePred (Bad lookup ended)
  | .digits _ => isFalse nofun
  | .word name => decidable_of_iff (lookup name = none) ⟨.unknown, fun | .unknown unbound => unbound⟩
  | .mark c =>
    decidable_of_iff (c ∉ ['+', '-', '*', '/', '(', ')'] ∨ (c = '*' ∨ c = '/') ∧ ended = false)
      ⟨fun | .inl strange => .foreign strange | .inr ⟨tight, fresh⟩ => .unled tight fresh,
        fun | .foreign strange => .inl strange | .unled tight fresh => .inr ⟨tight, fresh⟩⟩

instance decidableGood (lookup : Lookup) : ∀ ended lexemes, Decidable (Good lookup ended lexemes)
  | _, [] => isTrue good_nil
  | _, l :: lexemes =>
    have := decidableGood lookup l.endsOperand lexemes
    decidable_of_iff _ good_cons_iff.symm

theorem endsOperand_of_read (read : (l.read lookup ended).item = .ok t) :
    t.endsOperand = l.endsOperand := by
  rcases read_eq_ok read with ⟨_, _, rfl, _, rfl⟩ | ⟨_, _, rfl, _, rfl⟩ | ⟨c, rfl, mark⟩
  · rfl
  · rfl
  · rcases Token.ofMark_eq_ok mark with ⟨o, rfl, rfl, _⟩ | ⟨s, rfl, rfl, _⟩ | ⟨rfl, rfl⟩ | ⟨rfl, rfl⟩
    · cases o <;> rfl
    · cases s <;> rfl
    · rfl
    · rfl

theorem not_bad_of_read (read : (l.read lookup ended).item = .ok t) : ¬ l.Bad lookup ended := by
  intro bad
  cases bad with
  | unknown unbound => simp [Lexeme.read, unbound] at read
  | foreign strange =>
    rcases Token.ofMark_eq_ok read with ⟨o, _, rfl, _⟩ | ⟨s, _, rfl, _⟩ | ⟨_, rfl⟩ | ⟨_, rfl⟩
    · cases o <;> simp [Operation.symbol] at strange
    · cases s <;> simp [Sign.symbol] at strange
    · simp at strange
    · simp at strange
  | unled tight fresh =>
    subst fresh
    rcases tight with rfl | rfl
    · cases read
    · cases read

theorem read_of_not_bad (proper : l.Proper) (fine : ¬ l.Bad lookup ended) :
    ∃ t, (l.read lookup ended).item = .ok t := by
  cases l with
  | digits text =>
    have value := Decimal.readNat?_eq_some_iff.mpr ⟨proper, rfl⟩
    exact ⟨_, by simp only [Lexeme.read, value]; rfl⟩
  | word name =>
    cases value : lookup name with
    | none => exact absurd (.unknown value) fine
    | some n => exact ⟨.reference name n, by simp [Lexeme.read, value]⟩
  | mark c =>
    have symbol : c ∈ ['+', '-', '*', '/', '(', ')'] := by
      by_cases inside : c ∈ ['+', '-', '*', '/', '(', ')']
      · exact inside
      · exact absurd (.foreign inside) fine
    have led : (c = '*' ∨ c = '/') → ended = true := by
      intro tight
      cases ended with
      | true => rfl
      | false => exact absurd (.unled tight rfl) fine
    simp only [List.mem_cons, List.not_mem_nil, or_false] at symbol
    rcases symbol with rfl | rfl | rfl | rfl | rfl | rfl
    · exact ⟨_, rfl⟩
    · exact ⟨_, rfl⟩
    · exact ⟨.operation .multiply, by rw [led (by simp)]; rfl⟩
    · exact ⟨.operation .divide, by rw [led (by simp)]; rfl⟩
    · exact ⟨.opening, Token.ofMark_opening ended⟩
    · exact ⟨.closing, Token.ofMark_closing ended⟩

theorem spells_iff (proper : ∀ l ∈ lexemes, l.Proper) :
    (∃ ts, Spells lookup ended lexemes ts) ↔ Good lookup ended lexemes := by
  induction lexemes generalizing ended with
  | nil => exact ⟨fun _ => good_nil, fun _ => ⟨[], .nil ended⟩⟩
  | cons first others ih =>
    have tail := fun m mem => proper m (List.mem_cons_of_mem first mem)
    rw [good_cons_iff]
    constructor
    · rintro ⟨ts, spells⟩
      cases spells with
      | cons read later =>
        rw [endsOperand_of_read read] at later
        exact ⟨not_bad_of_read read, (ih tail).mp ⟨_, later⟩⟩
    · rintro ⟨fine, behind⟩
      obtain ⟨t, read⟩ := read_of_not_bad (proper first (by simp)) fine
      obtain ⟨ts, later⟩ := (ih tail).mpr behind
      rw [← endsOperand_of_read read] at later
      exact ⟨t :: ts, .cons read later⟩

end Lexeme

namespace Text

/-- Somewhere in the text no token can be read. -/
def Unreadable (lookup : Lookup) (text : List Char) : Prop :=
  ∃ before l rest, Lexeme.cut text = before ++ l :: rest ∧ l.Bad lookup (Lexeme.endedBy false before)

def Paired : Nat → List Char → Prop
  | depth, [] => depth = 0
  | depth, c :: rest =>
    if c = '(' then Paired (depth + 1) rest
    else if c = ')' then ∃ outer, depth = outer + 1 ∧ Paired outer rest
    else Paired depth rest

theorem paired_append_of_clear {front : List Char} (clear : ∀ c ∈ front, c ≠ '(' ∧ c ≠ ')') (depth : Nat)
    (rest : List Char) : Paired depth (front ++ rest) ↔ Paired depth rest := by
  induction front with
  | nil => rfl
  | cons c front ih =>
    obtain ⟨noOpening, noClosing⟩ := clear c (by simp)
    rw [List.cons_append, Paired, if_neg noOpening, if_neg noClosing]
    exact ih fun d mem => clear d (by simp [mem])

end Text

theorem Token.ofText_eq_ok_iff {lookup : Lookup} {text : List Char} :
    (∃ ts, Token.ofText lookup text = .ok ts) ↔ ¬ Text.Unreadable lookup text := by
  have cut : _ ↔ Lexeme.Good lookup false (Lexeme.cut text) := Lexeme.spells_iff (Lexeme.cut_proper text)
  constructor
  · rintro ⟨ts, read⟩ ⟨before, l, rest, parts, bad⟩
    exact cut.mp ⟨ts, Token.spells_of_ofText read⟩ before l rest parts bad
  · intro fine
    obtain ⟨ts, spells⟩ := cut.mpr fun before l rest parts bad => fine ⟨before, l, rest, parts, bad⟩
    exact ⟨ts, Token.ofText_of_spells spells⟩

theorem Lexeme.clear_of_read {lookup : Lookup} {ended : Bool} {l : Lexeme} {t : Token}
    (proper : l.Proper) (read : (l.read lookup ended).item = .ok t) (plain : t.isParenthesis = false) :
    ∀ c ∈ l.text, c ≠ '(' ∧ c ≠ ')' := by
  intro c mem
  rcases Lexeme.read_eq_ok read with ⟨text, _, rfl, _, _⟩ | ⟨name, _, rfl, _, _⟩ | ⟨m, rfl, mark⟩
  · have digit : c.isDigit = true := proper.2 c mem
    constructor <;> rintro rfl <;> cases digit
  · have letter : c.isAlpha = true := Name.isAlpha_of_mem proper mem
    constructor <;> rintro rfl <;> cases letter
  · have only : c = m := List.mem_singleton.mp mem
    subst only
    rcases Token.ofMark_eq_ok mark with ⟨o, _, rfl, _⟩ | ⟨s, _, rfl, _⟩ | ⟨rfl, _⟩ | ⟨rfl, _⟩
    · cases o <;> decide
    · cases s <;> decide
    · cases plain
    · cases plain

theorem balanced_cons_of_plain {t : Token} (plain : t.isParenthesis = false) (depth : Nat)
    (ts : List Token) : Balanced depth (t :: ts) ↔ Balanced depth ts := by
  cases t <;> simp_all [Token.isParenthesis, Balanced]

theorem Spells.balanced_iff {lookup : Lookup} {ended : Bool} {lexemes : List Lexeme} {ts : List Token}
    (spells : Spells lookup ended lexemes ts) (proper : ∀ l ∈ lexemes, l.Proper) (depth : Nat) :
    Balanced depth ts ↔ Text.Paired depth (lexemes.flatMap Lexeme.text) := by
  induction spells generalizing depth with
  | nil ended => exact Iff.rfl
  | @cons ended l t ls ts first tail ih =>
    have later := ih fun m mem => proper m (by simp [mem])
    rw [List.flatMap_cons]
    cases plain : t.isParenthesis with
    | false =>
      have clear := Lexeme.clear_of_read (proper l (by simp)) first plain
      rw [balanced_cons_of_plain plain, Text.paired_append_of_clear clear, later]
    | true =>
      have operand : t.isOperand = false := by cases t <;> simp_all [Token.isParenthesis, Token.isOperand]
      rw [text_of_read first operand]
      cases t <;> simp_all [Token.isParenthesis, Token.spelling, Balanced, Text.Paired]

end LineCalculator

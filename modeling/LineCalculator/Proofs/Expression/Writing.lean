import LineCalculator.Proofs.Expression.Postorder
import LineCalculator.Proofs.Expression.Reading

/- The grammar of expressions over characters, with no word of variables, lexemes or tokens. A text
   follows it exactly when its tokens form a phrase. -/
namespace LineCalculator

/-- What an expression says as it is written: the values of its names are still open. -/
inductive Formula where
  | digits (text : List Char)
  | word (name : Name)
  | sign (sign : Sign) (operand : Formula)
  | operation (operation : Operation) (left right : Formula)
  deriving DecidableEq, Repr

def Formula.tree (values : Name → Int) : Formula → Tree
  | .digits text => .number (Nat.ofDigitChars 10 text 0)
  | .word name => .reference name (values name)
  | .sign s f => .sign s (f.tree values)
  | .operation o l r => .operation o (l.tree values) (r.tree values)

def Formula.names : Formula → List Name
  | .digits _ => []
  | .word name => [name]
  | .sign _ f => f.names
  | .operation _ l r => l.names ++ r.names

/-- The text writes the formula at the level. A sum is a row of terms joined by plus and minus, a term a
    row of factors joined by times and divide, both grouped to the left. -/
inductive Writes : Level → List Char → Formula → Prop where
  | digits {text : List Char} (some : text ≠ []) (digits : ∀ c ∈ text, c.isDigit = true) :
      Writes .factor text (.digits text)
  | word {name : Name} (word : name.isWord = true) : Writes .factor name (.word name)
  | group {text : List Char} {f : Formula} (inner : Writes .sum text f) :
      Writes .factor ('(' :: text ++ [')']) f
  | sign {text : List Char} {f : Formula} (s : Sign) (operand : Writes .factor text f) :
      Writes .factor (s.symbol :: text) (.sign s f)
  | ofFactor {text : List Char} {f : Formula} (only : Writes .factor text f) : Writes .term text f
  | product {left right : List Char} {l r : Formula} (o : Operation) (tight : o.rank = 2)
      (first : Writes .term left l) (second : Writes .factor right r) :
      Writes .term (left ++ o.symbol :: right) (.operation o l r)
  | ofTerm {text : List Char} {f : Formula} (only : Writes .term text f) : Writes .sum text f
  | sum {left right : List Char} {l r : Formula} (o : Operation) (loose : o.rank = 1)
      (first : Writes .sum left l) (second : Writes .term right r) :
      Writes .sum (left ++ o.symbol :: right) (.operation o l r)

theorem Writes.no_equals {level : Level} {text : List Char} {f : Formula} (h : Writes level text f) :
    '=' ∉ text := by
  induction h with
  | digits some digits =>
    intro mem
    have := digits '=' mem
    contradiction
  | word word => exact Name.equals_not_mem word
  | group inner ih => simpa using ih
  | sign s operand ih => cases s <;> simpa [Sign.symbol] using ih
  | ofFactor only ih => exact ih
  | product o tight first second ihl ihr => cases o <;> simp [Operation.symbol, ihl, ihr]
  | ofTerm only ih => exact ih
  | sum o loose first second ihl ihr => cases o <;> simp [Operation.symbol, ihl, ihr]

variable {lookup : Lookup}

/-- The lexemes of a text, in front of others, spell the tokens, in front of those of the others. -/
def Leads (lookup : Lookup) (text : List Char) (tokens : List Token) : Prop :=
  ∀ rest after, Spells lookup true rest after →
    Spells lookup false (Lexeme.cut text ++ rest) (tokens ++ after)

theorem Leads.spells {text : List Char} {tokens : List Token} (h : Leads lookup text tokens) :
    Spells lookup false (Lexeme.cut text) tokens := by
  simpa using h [] [] (.nil true)

theorem Leads.operation {left right : List Char} {ls rs : List Token} (o : Operation)
    (first : Leads lookup left ls) (second : Leads lookup right rs) :
    Leads lookup (left ++ o.symbol :: right) (ls ++ .operation o :: rs) := by
  intro rest after tail
  rw [Lexeme.cut_append_mark o.symbol_proper]
  have middle := Spells.mark (Token.ofMark_operation o) (second rest after tail)
  simpa using first _ _ middle

theorem Leads.sign {text : List Char} {ts : List Token} (s : Sign) (operand : Leads lookup text ts) :
    Leads lookup (s.symbol :: text) (.sign s :: ts) := by
  intro rest after tail
  rw [Lexeme.cut_mark_cons s.symbol_proper]
  exact .mark (Token.ofMark_sign s) (operand rest after tail)

theorem cut_group (text : List Char) :
    Lexeme.cut ('(' :: text ++ [')']) = .mark '(' :: (Lexeme.cut text ++ [.mark ')']) := by
  rw [List.cons_append, Lexeme.cut_mark_cons Lexeme.opening_proper,
    Lexeme.cut_append_mark Lexeme.closing_proper, Lexeme.cut_nil]

theorem Leads.group {text : List Char} {ts : List Token} (inner : Leads lookup text ts) :
    Leads lookup ('(' :: text ++ [')']) (.opening :: ts ++ [.closing]) := by
  intro rest after tail
  have closed := Spells.mark (Token.ofMark_closing true) tail
  rw [cut_group]
  have whole := Spells.mark (Token.ofMark_opening false) (inner _ _ closed)
  simpa using whole

theorem Writes.leads {level : Level} {text : List Char} {f : Formula} (h : Writes level text f)
    {values : Name → Int} (known : ∀ name ∈ f.names, lookup name = some (values name)) :
    ∃ ts, Derives level ts (f.tree values) ∧ Leads lookup text ts := by
  induction h with
  | @digits text some digits =>
    refine ⟨[.number (Nat.ofDigitChars 10 text 0)], .number _, ?_⟩
    intro rest after tail
    have value := Decimal.readNat?_eq_some_iff.mpr ⟨⟨some, digits⟩, rfl⟩
    rw [Lexeme.cut_digits some digits]
    exact .cons (by simp [Lexeme.read, value]) tail
  | @word name word =>
    refine ⟨[.reference name (values name)], .reference _ _, ?_⟩
    intro rest after tail
    have value := known name (by simp [Formula.names])
    rw [Lexeme.cut_word word]
    exact .cons (by simp [Lexeme.read, value]) tail
  | group inner ih =>
    obtain ⟨ts, derived, leads⟩ := ih known
    exact ⟨.opening :: ts ++ [.closing], .group derived, leads.group⟩
  | sign s operand ih =>
    obtain ⟨ts, derived, leads⟩ := ih known
    exact ⟨.sign s :: ts, .sign s derived, leads.sign s⟩
  | ofFactor only ih =>
    obtain ⟨ts, derived, leads⟩ := ih known
    exact ⟨ts, .ofFactor derived, leads⟩
  | product o tight first second ihl ihr =>
    obtain ⟨ls, left, leadsLeft⟩ := ihl fun name mem => known name (by simp [Formula.names, mem])
    obtain ⟨rs, right, leadsRight⟩ := ihr fun name mem => known name (by simp [Formula.names, mem])
    exact ⟨ls ++ .operation o :: rs, .product o tight left right, leadsLeft.operation o leadsRight⟩
  | ofTerm only ih =>
    obtain ⟨ts, derived, leads⟩ := ih known
    exact ⟨ts, .ofTerm derived, leads⟩
  | sum o loose first second ihl ihr =>
    obtain ⟨ls, left, leadsLeft⟩ := ihl fun name mem => known name (by simp [Formula.names, mem])
    obtain ⟨rs, right, leadsRight⟩ := ihr fun name mem => known name (by simp [Formula.names, mem])
    exact ⟨ls ++ .operation o :: rs, .sum o loose left right, leadsLeft.operation o leadsRight⟩

theorem Writes.word_mem_cut {level : Level} {text : List Char} {f : Formula} (h : Writes level text f)
    {name : Name} (mem : name ∈ f.names) : .word name ∈ Lexeme.cut text := by
  induction h with
  | digits some digits => simp [Formula.names] at mem
  | @word other word =>
    have same : name = other := by simpa [Formula.names] using mem
    simp [Lexeme.cut_word word, same]
  | group inner ih =>
    rw [cut_group]
    simp [ih mem]
  | sign s operand ih =>
    rw [Lexeme.cut_mark_cons s.symbol_proper]
    simp [ih mem]
  | ofFactor only ih => exact ih mem
  | product o tight first second ihl ihr =>
    rw [Lexeme.cut_append_mark o.symbol_proper]
    rcases List.mem_append.mp mem with left | right
    · simp [ihl left]
    · simp [ihr right]
  | ofTerm only ih => exact ih mem
  | sum o loose first second ihl ihr =>
    rw [Lexeme.cut_append_mark o.symbol_proper]
    rcases List.mem_append.mp mem with left | right
    · simp [ihl left]
    · simp [ihr right]

theorem text_of_read {afterOperand : Bool} {l : Lexeme} {t : Token}
    (read : (l.read lookup afterOperand).item = .ok t) (plain : t.isOperand = false) :
    l.text = t.spelling := by
  rcases Lexeme.read_eq_ok read with ⟨_, _, _, _, rfl⟩ | ⟨_, _, _, _, rfl⟩ | ⟨c, rfl, mark⟩
  · simp [Token.isOperand] at plain
  · simp [Token.isOperand] at plain
  · rcases Token.ofMark_eq_ok mark with ⟨o, rfl, rfl, _⟩ | ⟨s, rfl, rfl, _⟩ | ⟨rfl, rfl⟩ | ⟨rfl, rfl⟩
    all_goals rfl

theorem Writes.of_operand {afterOperand : Bool} {l : Lexeme} {t : Token}
    (read : (l.read lookup afterOperand).item = .ok t) (operand : t.isOperand = true)
    (proper : l.Proper) : ∃ f, Writes .factor l.text f := by
  rcases Lexeme.read_eq_ok read with ⟨text, _, rfl, _, _⟩ | ⟨name, _, rfl, _, _⟩ | ⟨c, rfl, mark⟩
  · exact ⟨.digits text, .digits proper.1 proper.2⟩
  · exact ⟨.word name, .word proper⟩
  · rcases Token.ofMark_eq_ok mark with ⟨_, rfl, _⟩ | ⟨_, rfl, _⟩ | ⟨rfl, _⟩ | ⟨rfl, _⟩
    all_goals simp [Token.isOperand] at operand

theorem Spells.parted {o : Operation} {ls rs : List Token} {afterOperand : Bool}
    {lexemes : List Lexeme} (h : Spells lookup afterOperand lexemes (ls ++ .operation o :: rs)) :
    ∃ first second behind, (∀ l, l ∈ first ∨ l ∈ second → l ∈ lexemes) ∧
      lexemes.flatMap Lexeme.text = first.flatMap Lexeme.text ++ o.symbol :: second.flatMap Lexeme.text ∧
      Spells lookup afterOperand first ls ∧ Spells lookup behind second rs := by
  obtain ⟨first, rest, behind, rfl, front, back⟩ := h.split
  obtain ⟨mark, second, rfl, read, tail⟩ := back.uncons
  have middle := text_of_read read rfl
  refine ⟨first, second, _, ?_, by simp [middle, Token.spelling], front, tail⟩
  intro l mem
  rcases mem with left | right
  · simp [left]
  · simp [right]

theorem Writes.of_spells {level : Level} {ts : List Token} {t : Tree} (h : Derives level ts t)
    {afterOperand : Bool} {lexemes : List Lexeme} (spells : Spells lookup afterOperand lexemes ts)
    (proper : ∀ l ∈ lexemes, l.Proper) : ∃ f, Writes level (lexemes.flatMap Lexeme.text) f := by
  induction h generalizing afterOperand lexemes with
  | number n =>
    obtain ⟨l, rfl, read⟩ := spells.single
    simpa using Writes.of_operand read rfl (proper l (by simp))
  | reference name n =>
    obtain ⟨l, rfl, read⟩ := spells.single
    simpa using Writes.of_operand read rfl (proper l (by simp))
  | group inner ih =>
    obtain ⟨opening, ls, rfl, first, tail⟩ := spells.uncons
    obtain ⟨inside, closing, behind, rfl, middle, last⟩ := tail.split
    obtain ⟨l, rfl, read⟩ := last.single
    obtain ⟨f, writes⟩ := ih middle fun l mem => proper l (by simp [mem])
    have left := text_of_read first rfl
    have right := text_of_read read rfl
    exact ⟨f, by simpa [left, right, Token.spelling] using writes.group⟩
  | sign s operand ih =>
    obtain ⟨mark, ls, rfl, first, tail⟩ := spells.uncons
    obtain ⟨f, writes⟩ := ih tail fun l mem => proper l (by simp [mem])
    have front := text_of_read first rfl
    exact ⟨.sign s f, by simpa [front, Token.spelling] using writes.sign s⟩
  | ofFactor only ih =>
    obtain ⟨f, writes⟩ := ih spells proper
    exact ⟨f, .ofFactor writes⟩
  | product o tight left right ihl ihr =>
    obtain ⟨first, second, behind, inside, parts, front, back⟩ := spells.parted
    obtain ⟨l, writesLeft⟩ := ihl front fun l mem => proper l (inside l (Or.inl mem))
    obtain ⟨r, writesRight⟩ := ihr back fun l mem => proper l (inside l (Or.inr mem))
    rw [parts]
    exact ⟨.operation o l r, .product o tight writesLeft writesRight⟩
  | ofTerm only ih =>
    obtain ⟨f, writes⟩ := ih spells proper
    exact ⟨f, .ofTerm writes⟩
  | sum o loose left right ihl ihr =>
    obtain ⟨first, second, behind, inside, parts, front, back⟩ := spells.parted
    obtain ⟨l, writesLeft⟩ := ihl front fun l mem => proper l (inside l (Or.inl mem))
    obtain ⟨r, writesRight⟩ := ihr back fun l mem => proper l (inside l (Or.inr mem))
    rw [parts]
    exact ⟨.operation o l r, .sum o loose writesLeft writesRight⟩

end LineCalculator

import LineCalculator.Proofs.Expression.Juxtaposition

/- Where an operand is missing. A value tells of the tokens it came from only that there is one operand more
   than there are operations. Where no operands are juxtaposed that is enough: each gap would leave one
   operand too few, and nothing makes up for it. -/
namespace LineCalculator

def Token.startsOperand : Token → Bool
  | .number _ | .reference _ _ | .sign _ | .opening => true
  | .operation _ | .closing => false

/-- No operand is missing: one starts behind every operation and every sign, no group is empty, and neither
    an operation nor a sign is the last token. -/
structure Supplied (ts : List Token) : Prop where
  operation {before rest : List Token} {o : Operation} (parts : ts = before ++ .operation o :: rest) :
    ∃ t ∈ rest.head?, t.startsOperand = true
  sign {before rest : List Token} {s : Sign} (parts : ts = before ++ .sign s :: rest) :
    ∃ t ∈ rest.head?, t.startsOperand = true
  group (before rest : List Token) : ts ≠ before ++ .opening :: .closing :: rest
  last {t : Token} (last : t ∈ ts.getLast?) : t.isOperation = false ∧ t.isSign = false

/-- Operands and operations take turns without a gap: as `Turns`, but a group and the whole end only where
    an operand has ended. -/
inductive Alternates : Bool → List Token → Prop where
  | nil : Alternates true []
  | operand {t : Token} {ts : List Token} (operand : t.isOperand = true) (tail : Alternates true ts) :
      Alternates false (t :: ts)
  | operation {ts : List Token} (o : Operation) (tail : Alternates false ts) :
      Alternates true (.operation o :: ts)
  | sign {ts : List Token} (s : Sign) (tail : Alternates false ts) : Alternates false (.sign s :: ts)
  | opening {ts : List Token} (tail : Alternates false ts) : Alternates false (.opening :: ts)
  | closing {ts : List Token} (tail : Alternates true ts) : Alternates true (.closing :: ts)

theorem Turns.alternates {ended : Bool} {ts : List Token} (turns : Turns ended ts)
    (enough : ts.countP Token.isOperation + 1 ≤ ts.countP Token.isOperand + ended.toNat) :
    Alternates ended ts := by
  induction turns with
  | nil ended =>
    cases ended with
    | false => simp at enough
    | true => exact .nil
  | operand operand tail ih =>
    refine .operand operand (ih ?_)
    simp only [List.countP_cons, operand, Token.isOperation_of_isOperand operand, Bool.toNat_true,
      Bool.toNat_false, if_true, Bool.false_eq_true, if_false] at enough ⊢
    omega
  | operation o tail ih =>
    refine .operation o (ih ?_)
    simp [List.countP_cons, Token.isOperand, Token.isOperation] at enough ⊢
    omega
  | sign s tail ih =>
    refine .sign s (ih ?_)
    simpa [List.countP_cons, Token.isOperand, Token.isOperation] using enough
  | opening tail ih =>
    refine .opening (ih ?_)
    simpa [List.countP_cons, Token.isOperand, Token.isOperation] using enough
  | closing ended tail ih =>
    have bound := tail.count_le
    cases ended with
    | false =>
      -- Behind a gap the closing parenthesis counts as the end of an operand that is not there.
      simp [Token.isOperand, Token.isOperation] at enough bound
      omega
    | true =>
      refine .closing (ih ?_)
      simpa [List.countP_cons, Token.isOperand, Token.isOperation] using enough

namespace Alternates
variable {ended : Bool} {before rest ts : List Token} {t : Token}

theorem behind (alternates : Alternates ended (before ++ rest)) : ∃ now, Alternates now rest := by
  induction before generalizing ended with
  | nil => exact ⟨ended, alternates⟩
  | cons first before ih => cases alternates <;> exact ih (by assumption)

theorem starts (alternates : Alternates false ts) : ∃ t ∈ ts.head?, t.startsOperand = true := by
  cases alternates with
  | @operand t _ operand tail => exact ⟨t, rfl, by cases t <;> simp_all [Token.isOperand, Token.startsOperand]⟩
  | sign s tail => exact ⟨_, rfl, rfl⟩
  | opening tail => exact ⟨_, rfl, rfl⟩

theorem supplied (alternates : Alternates ended ts) : Supplied ts where
  operation parts := by
    rw [parts] at alternates
    obtain ⟨now, here⟩ := alternates.behind
    cases here with
    | operand operand tail => contradiction
    | operation o tail => exact tail.starts
  sign parts := by
    rw [parts] at alternates
    obtain ⟨now, here⟩ := alternates.behind
    cases here with
    | operand operand tail => contradiction
    | sign s tail => exact tail.starts
  group before rest parts := by
    rw [parts] at alternates
    obtain ⟨now, here⟩ := alternates.behind
    cases here with
    | operand operand tail => contradiction
    | opening tail =>
      obtain ⟨t, head, starts⟩ := tail.starts
      cases head
      contradiction
  last {t} last := by
    obtain ⟨front, parts⟩ := List.getLast?_eq_some_iff.mp last
    rw [parts] at alternates
    obtain ⟨now, here⟩ := alternates.behind
    cases here with
    | operand operand tail => cases t <;> simp_all [Token.isOperand, Token.isOperation, Token.isSign]
    | operation o tail => cases tail
    | sign s tail => cases tail
    | opening tail => cases tail
    | closing tail => exact ⟨rfl, rfl⟩

end Alternates

/-- A value has one operand more than operations behind it. Where no operands or groups are juxtaposed, no
    operand is missing either, so no two faults of a line make up for each other. -/
theorem Line.supplied_of_value (vars : Variables) (line : List Char) (v : Int)
    (answered : (Line.answer vars line).1 = .ok (some v)) :
    ∃ ts, vars.tokens line = .ok ts ∧
      ts.countP Token.isOperand = ts.countP Token.isOperation + 1 ∧
      (Separate ts → Supplied ts) := by
  obtain ⟨ts, out, spells, order, value⟩ := Line.tokens_of_answer answered
  obtain ⟨_, kept⟩ := Postfix.ofTokens_eq_ok order
  have counts := Postfix.count_of_value value
  rw [kept _ rfl rfl, kept _ rfl rfl] at counts
  refine ⟨ts, Token.ofText_of_spells spells, counts, ?_⟩
  intro separate
  have turns := Turns.of_spells spells (by simp) separate
  exact (turns.alternates (by simp [counts])).supplied

theorem Line.supplied_of_value_signed_group :
    (Line.answer .empty "3 - -(2 * 1)".toList).1 = .ok (some 5) ∧
      Supplied [.number 3, .operation .subtract, .sign .minus, .opening, .number 2, .operation .multiply,
        .number 1, .closing] ∧
      (Line.answer .empty "3 - -()".toList).1 = .error .invalidExpression := by
  have answered : (Line.answer .empty "3 - -(2 * 1)".toList).1 = .ok (some 5) := by decide
  obtain ⟨ts, read, _, supplied⟩ := Line.supplied_of_value .empty _ 5 answered
  have tokens : Variables.empty.tokens "3 - -(2 * 1)".toList = .ok [.number 3, .operation .subtract,
      .sign .minus, .opening, .number 2, .operation .multiply, .number 1, .closing] := by decide
  obtain rfl := Except.ok.inj (tokens.symm.trans read)
  exact ⟨answered, supplied (by decide), by decide⟩

end LineCalculator

import LineCalculator.Proofs.Assignment
import LineCalculator.Proofs.Expression.Writing

/- What a written expression is worth, and that a line of it answers exactly that. -/
namespace LineCalculator

/-- A quotient by zero counts as zero here; `Tree.DividesByZero` tells whether there is one. -/
def Operation.total (left right : Int) : Operation → Int
  | .add => left + right
  | .subtract => left - right
  | .multiply => left * right
  | .divide => left.tdiv right

theorem Operation.apply_eq_total {left right : Int} {o : Operation}
    (fine : ¬(o = .divide ∧ right = 0)) : o.apply left right = .ok (o.total left right) := by
  cases o <;> simp_all [apply, total]

namespace Tree

def integer : Tree → Int
  | .number n => n
  | .reference _ n => n
  | .sign s t => s.apply t.integer
  | .operation o l r => o.total l.integer r.integer

def DividesByZero : Tree → Prop
  | .number _ => False
  | .reference _ _ => False
  | .sign _ t => t.DividesByZero
  | .operation o l r => l.DividesByZero ∨ r.DividesByZero ∨ (o = .divide ∧ r.integer = 0)

instance decideDividesByZero : (t : Tree) → Decidable t.DividesByZero
  | .number _ => inferInstanceAs (Decidable False)
  | .reference _ _ => inferInstanceAs (Decidable False)
  | .sign _ t => decideDividesByZero t
  | .operation o l r =>
    have := decideDividesByZero l
    have := decideDividesByZero r
    inferInstanceAs (Decidable (_ ∨ _ ∨ (o = .divide ∧ r.integer = 0)))

theorem value_cases (t : Tree) :
    (¬ t.DividesByZero ∧ t.value = .ok t.integer) ∨
      (t.DividesByZero ∧ t.value = .error .divisionByZero) := by
  induction t with
  | number n => exact Or.inl ⟨id, rfl⟩
  | reference name n => exact Or.inl ⟨id, rfl⟩
  | sign s t ih =>
    rcases ih with ⟨fine, eq⟩ | ⟨zero, eq⟩
    · exact Or.inl ⟨fine, by simp [value, eq, integer, Except.map]⟩
    · exact Or.inr ⟨zero, by simp [value, eq, Except.map]⟩
  | operation o l r ihl ihr =>
    rcases ihl with ⟨fineL, eqL⟩ | ⟨zero, eq⟩
    · rcases ihr with ⟨fineR, eqR⟩ | ⟨zero, eq⟩
      · have here : (operation o l r).value = o.apply l.integer r.integer := by
          simp [value, eqL, eqR, bind, Except.bind]
        by_cases zero : o = .divide ∧ r.integer = 0
        · refine Or.inr ⟨Or.inr (Or.inr zero), ?_⟩
          rw [here, Operation.apply_eq_error_iff]
          exact ⟨zero.1, zero.2, rfl⟩
        · refine Or.inl ⟨?_, here.trans (Operation.apply_eq_total zero)⟩
          rintro (l | r | here)
          · exact fineL l
          · exact fineR r
          · exact zero here
      · exact Or.inr ⟨Or.inr (Or.inl zero), by simp [value, eqL, eq, bind, Except.bind]⟩
    · exact Or.inr ⟨Or.inl zero, by simp [value, eq, bind, Except.bind]⟩

end Tree

theorem Token.items_eq (lookup : Lookup) (text : List Char) :
    Token.items lookup text = Lexeme.items lookup false (Lexeme.cut text) := rfl

theorem Postfix.ofText_of_spells {lookup : Lookup} {text : List Char} {ts : List Token}
    (h : Spells lookup false (Lexeme.cut text) ts) : Postfix.ofText lookup text = Postfix.ofTokens ts := by
  rw [Postfix.ofText, Token.items_eq, h.items_eq, Postfix.ofTokens]

theorem Token.ofText_of_spells {lookup : Lookup} {text : List Char} {ts : List Token}
    (h : Spells lookup false (Lexeme.cut text) ts) : Token.ofText lookup text = .ok ts := by
  rw [Token.ofText, Except.mapM_id_eq_ok_iff, Token.items_eq, h.items_eq]

theorem Token.spells_of_ofText {lookup : Lookup} {text : List Char} {ts : List Token}
    (h : Token.ofText lookup text = .ok ts) : Spells lookup false (Lexeme.cut text) ts := by
  rw [Token.ofText, Except.mapM_id_eq_ok_iff, Token.items_eq] at h
  exact Spells.ofItems_eq h

theorem Variables.postfixTokens_of_tokens {vars : Variables} {text : List Char} {ts : List Token}
    (read : vars.tokens text = .ok ts) : vars.postfixTokens text = Postfix.ofTokens ts :=
  Postfix.ofText_of_spells (Token.spells_of_ofText read)

theorem Request.ofLine_eq_expression {line text : List Char}
    (h : Request.ofLine line = .ok (.expression text)) : text = line := by
  unfold Request.ofLine at h
  split at h
  · exact (Request.expression.inj (Except.ok.inj h)).symm
  · dsimp only at h
    split at h
    · split at h <;> simp at h
    · simp at h
  · simp at h

theorem Line.answer_expression (vars : Variables) {line : List Char} (h : '=' ∉ Text.dropBlanks line) :
    Line.answer vars line = ((vars.value (Text.dropBlanks line)).map some, vars) := by
  rw [Line.answer, Request.ofLine_expression h]

theorem Line.tokens_of_answer {vars : Variables} {line : List Char} {v : Int}
    (h : (Line.answer vars line).1 = .ok (some v)) :
    ∃ ts out, Spells vars.get? false (Lexeme.cut (Text.dropBlanks line)) ts ∧
      Postfix.ofTokens ts = .ok out ∧ Postfix.value out = .ok v := by
  unfold Line.answer at h
  cases request : Request.ofLine (Text.dropBlanks line) with
  | error fault => simp [request] at h
  | ok asked =>
    cases asked with
    | assignment target right => cases value : vars.rightValue right <;> simp [request, value] at h
    | expression text =>
      have plain := Request.ofLine_eq_expression request
      subst plain
      have whole : (vars.value (Text.dropBlanks line)).map some = .ok (some v) := by
        simpa [request] using h
      obtain ⟨n, worth, same⟩ := Except.map_eq_ok_iff.mp whole
      obtain ⟨out, order, value⟩ := Except.bind_eq_ok_iff.mp worth
      rw [Variables.postfixTokens, Text.dropBlanks_dropBlanks] at order
      obtain ⟨ts, items, _⟩ := Yard.convert_eq_ok order
      have spells : Spells vars.get? false (Lexeme.cut (Text.dropBlanks line)) ts :=
        Spells.ofItems_eq items
      refine ⟨ts, out, spells, ?_, ?_⟩
      · rwa [← Postfix.ofText_of_spells spells]
      · rw [value, Option.some.inj same]

theorem Variables.value_phrase {vars : Variables} {text : List Char} {ts : List Token} {t : Tree}
    (spells : Spells vars.get? false (Lexeme.cut (Text.dropBlanks text)) ts) (derived : Derives .sum ts t) :
    vars.value text = t.value := by
  have order : vars.postfixTokens text = .ok t.postorder := by
    rw [Variables.postfixTokens, Postfix.ofText_of_spells spells, Postfix.ofTokens_phrase derived]
  rw [Variables.value, order]
  exact t.value_postorder

theorem Line.answer_written (vars : Variables) (line : List Char) (f : Formula) (values : Name → Int)
    (written : Writes .sum (Text.dropBlanks line) f)
    (bound : ∀ name ∈ f.names, vars.get? name = some (values name)) :
    (¬ (f.tree values).DividesByZero →
      (Line.answer vars line).1 = .ok (some (f.tree values).integer)) ∧
    ((f.tree values).DividesByZero → (Line.answer vars line).1 = .error .divisionByZero) ∧
    (Line.answer vars line).1 ≠ .error .invalidExpression := by
  obtain ⟨ts, derived, leads⟩ := written.leads bound
  have spells : Spells vars.get? false
      (Lexeme.cut (Text.dropBlanks (Text.dropBlanks line))) ts := by
    rw [Text.dropBlanks_dropBlanks]
    exact leads.spells
  have worth : (Line.answer vars line).1 = (f.tree values).value.map some := by
    rw [Line.answer_expression vars written.no_equals, Variables.value_phrase spells derived]
  rcases (f.tree values).value_cases with ⟨fine, eq⟩ | ⟨zero, eq⟩
  · rw [eq] at worth
    exact ⟨fun _ => worth, fun zero => absurd zero fine, by simp [worth, Except.map]⟩
  · rw [eq] at worth
    exact ⟨fun fine => absurd zero fine, fun _ => worth, by simp [worth, Except.map]⟩

theorem Line.answer_written_signed_group :
    (Line.answer (Variables.empty.assign ['a'] 5) "-(2 + a) / 2".toList).1 = .ok (some (-3)) := by
  have two : Writes .factor ['2'] (.digits ['2']) := .digits (by simp) (by simp)
  have a : Writes .factor ['a'] (.word ['a']) := .word rfl
  have sum := Writes.sum .add rfl (.ofTerm (.ofFactor two)) (.ofFactor a)
  have written := Writes.ofTerm (.product .divide rfl (.ofFactor (.sign .minus (.group sum))) two)
  have answer := Line.answer_written (Variables.empty.assign ['a'] 5) "-(2 + a) / 2".toList _
    (fun _ => 5) written (by simp [Formula.names, Variables.get?_assign])
  exact answer.1 (by decide)

end LineCalculator

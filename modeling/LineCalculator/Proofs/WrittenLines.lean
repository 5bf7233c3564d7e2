import LineCalculator.Proofs.Expression.Staging
import LineCalculator.Proofs.Text.Literals

/- The answer to any line that is written by the grammar of expressions, whether or not its names have
   values, and the literals of integers among such lines. -/
namespace LineCalculator

theorem Writes.clear {level : Level} {text : List Char} {f : Formula} (written : Writes level text f) :
    ∀ c ∈ text, Text.isBlank c = false := by
  induction written with
  | digits some digits => exact fun c mem => Text.isBlank_eq_false_of_isDigit (digits c mem)
  | word word => exact fun c mem => Text.isBlank_eq_false_of_isAlpha (Name.isAlpha_of_mem word mem)
  | group inner ih =>
    have brackets : Text.isBlank '(' = false ∧ Text.isBlank ')' = false := by decide
    simpa [brackets, or_imp, forall_and] using ih
  | sign s operand ih =>
    have mark : Text.isBlank s.symbol = false := by cases s <;> decide
    simpa [mark] using ih
  | ofFactor only ih => exact ih
  | product o tight first second ihl ihr =>
    have mark : Text.isBlank o.symbol = false := by cases o <;> decide
    simpa [mark, or_imp, forall_and] using And.intro ihl ihr
  | ofTerm only ih => exact ih
  | sum o loose first second ihl ihr =>
    have mark : Text.isBlank o.symbol = false := by cases o <;> decide
    simpa [mark, or_imp, forall_and] using And.intro ihl ihr

theorem Writes.toSum {text : List Char} {f : Formula} (written : Writes .factor text f) :
    Writes .sum text f :=
  .ofTerm (.ofFactor written)

theorem Literal.writes {text : List Char} {v : Int} (literal : Literal text v) :
    ∃ f, Writes .factor text f ∧ f.names = [] ∧ ∀ values, (f.tree values).value = .ok v := by
  cases literal with
  | plain some all => exact ⟨.digits text, .digits some all, rfl, fun _ => rfl⟩
  | @signed s digits some all =>
    exact ⟨.sign s (.digits digits), .sign s (.digits some all), rfl, fun _ => rfl⟩

theorem Literal.dropBlanks {text : List Char} {v : Int} (literal : Literal text v) :
    Text.dropBlanks text = text := by
  obtain ⟨f, written, _⟩ := literal.writes
  exact Text.dropBlanks_of_clear written.clear

theorem Text.unreadable_of_unknown {lookup : Lookup} {text : List Char} {name : Name}
    (mem : .word name ∈ Lexeme.cut text) (unknown : lookup name = none) : Unreadable lookup text := by
  obtain ⟨before, rest, parts⟩ := List.append_of_mem mem
  exact ⟨before, .word name, rest, parts, .unknown unknown⟩

namespace Line
variable {vars : Variables} {line : List Char} {f : Formula}

theorem answer_of_known (written : Writes .sum line f) {values : Name → Int}
    (known : ∀ name ∈ f.names, vars.get? name = some (values name)) :
    answer vars line = ((f.tree values).value.map some, vars) := by
  have plain := Text.dropBlanks_of_clear written.clear
  obtain ⟨ts, derived, leads⟩ := written.leads known
  have spells : Spells vars.get? false (Lexeme.cut (Text.dropBlanks line)) ts := by
    rw [plain]
    exact leads.spells
  rw [answer_expression vars (by rw [plain]; exact written.no_equals), plain,
    Variables.value_phrase spells derived]

theorem answer_of_unknown (written : Writes .sum line f) {name : Name} (mem : name ∈ f.names)
    (unknown : vars.get? name = none) : answer vars line = (.error .invalidExpression, vars) := by
  have unreadable : Text.Unreadable vars.get? (Text.dropBlanks line) := by
    rw [Text.dropBlanks_of_clear written.clear]
    exact Text.unreadable_of_unknown (written.word_mem_cut mem) unknown
  apply answer_of_postfixTokens_error written.no_equals
  exact Variables.postfixTokens_of_tokens_error (Variables.tokens_eq_error_iff.mpr unreadable)

theorem answer_of_literal {v : Int} (literal : Literal line v) :
    answer vars line = (.ok (some v), vars) := by
  obtain ⟨f, written, closed, worth⟩ := literal.writes
  have known : ∀ name ∈ f.names, vars.get? name = some 0 := by simp [closed]
  rw [answer_of_known written.toSum known, worth]
  rfl

theorem answer_of_held {name : Name} {value : Int} (word : name.isWord = true)
    (held : vars.get? name = some value) : answer vars name = (.ok (some value), vars) := by
  have known : ∀ other ∈ (Formula.word name).names, vars.get? other = some value := by
    simpa [Formula.names] using held
  exact answer_of_known (Writes.word word).toSum known

theorem answer_of_unheld {name : Name} (word : name.isWord = true) (unheld : vars.get? name = none) :
    answer vars name = (.error .invalidExpression, vars) :=
  answer_of_unknown (Writes.word word).toSum (List.mem_singleton_self name) unheld

end Line
end LineCalculator

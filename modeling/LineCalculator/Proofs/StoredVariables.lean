import LineCalculator.Proofs.Console.HeardLines
import LineCalculator.Proofs.RenamedLines
import LineCalculator.Proofs.Snapshots
import LineCalculator.Proofs.WrittenLines

/- Which variables there are after lines in order, and that each of them can be read and copied: what may
   stand left of an equals sign is what an expression cuts out as one word. -/
namespace LineCalculator

namespace Line
variable {vars now : Variables} {line : List Char} {name other : Name} {value : Int}

def target (line : List Char) : Name := (Text.dropBlanks line).takeWhile (· ≠ '=')

/-- The targets of the assignments among lines in order. -/
def targets : Variables → List (List Char) → List Name
  | _, [] => []
  | now, line :: rest =>
    let later := targets (answer now line).2 rest
    if (answer now line).1 = .ok none then target line :: later else later

theorem target_of_assigns (assigns : Assigns now line name value) : target line = name := by
  obtain ⟨word, text, plain, _⟩ := assigns
  rw [target, plain, Text.takeWhile_append_equals (Name.equals_not_mem word)]

theorem contains_answer (now : Variables) (line : List Char) (name : Name) :
    (answer now line).2.contains name = true ↔
      now.contains name = true ∨ (answer now line).1 = .ok none ∧ target line = name := by
  rcases answer_vars_or_assigns now line with ⟨other, same⟩ | ⟨assigned, value, assigns⟩
  · rw [same]
    simp [other]
  · rw [answer_of_assigns assigns, Variables.contains_assign, target_of_assigns assigns]
    simp

theorem contains_after (now : Variables) (lines : List (List Char)) (name : Name) :
    (after now lines).contains name = true ↔ now.contains name = true ∨ name ∈ targets now lines := by
  induction lines generalizing now with
  | nil => simp [targets]
  | cons line rest ih =>
    rw [after_cons, ih, contains_answer, targets]
    split
    · next assigned =>
      simp only [assigned, true_and, List.mem_cons, or_assoc, @eq_comm _ (target line)]
    · next other => simp only [other, false_and, or_false]

theorem words_after (words : now.Words) (lines : List (List Char)) : (after now lines).Words := by
  induction lines generalizing now with
  | nil => exact words
  | cons line rest ih => exact ih (words_answer words line)

theorem answer_copy_of_held (left : other.isWord = true) (right : name.isWord = true)
    (held : vars.get? name = some value) :
    answer vars (other ++ '=' :: name) = (.ok none, vars.assign other value) := by
  have plain := Text.dropBlanks_around_equals left (Text.dropBlanks_of_isWord right)
  exact answer_of_assigns ⟨left, name, plain, .inr ⟨right, held⟩⟩

theorem answer_copy_of_unheld (left : other.isWord = true) (right : name.isWord = true)
    (unheld : vars.get? name = none) :
    answer vars (other ++ '=' :: name) = (.error .unknownVariable, vars) := by
  have plain := Text.dropBlanks_around_equals left (Text.dropBlanks_of_isWord right)
  have request : Request.ofLine (other ++ '=' :: name) = .ok (.assignment other (.copyOf name)) :=
    Request.ofLine_eq_assignment_iff.mpr
      ⟨left, name, rfl, RightSide.ofText?_eq_some_iff.mpr (.inr ⟨right, rfl⟩)⟩
  simp only [answer, plain, request, Variables.rightValue, unheld]

/-- Variables that are reached from none by these lines, given one by one or heard by a console. -/
inductive Reached (lines : List (List Char)) : Variables → Prop where
  | given : Reached lines (after .empty lines)
  | heard {ω : Type} [Output ω] {console : Console ω} (heard : Console.Heard lines console) :
      Reached lines console.vars

theorem Reached.eq_after {lines : List (List Char)} (reached : Reached lines vars) :
    vars = after .empty lines := by
  cases reached with
  | given => rfl
  | heard heard => exact heard.vars_eq

/-- However variables are reached, there are as many as the lines have different targets, and each has a
    word for a name, by which it can be read and copied. A word that is not the name of one of them is an
    invalid expression, and an unknown variable when it is copied. -/
theorem stored_usable {lines : List (List Char)} {vars : Variables} (reached : Reached lines vars) :
    vars.size = (targets .empty lines).toFinset.card ∧
    (∀ name value, vars.get? name = some value →
      name.isWord = true ∧ answer vars name = (.ok (some value), vars) ∧
        ∀ other, Name.isWord other = true →
          answer vars (other ++ '=' :: name) = (.ok none, vars.assign other value) ∧
            (vars.assign other value).get? other = some value) ∧
    ∀ name, Name.isWord name = true → vars.get? name = none →
      answer vars name = (.error .invalidExpression, vars) ∧
        ∀ other, Name.isWord other = true →
          answer vars (other ++ '=' :: name) = (.error .unknownVariable, vars) := by
  have same := reached.eq_after
  refine ⟨?_, ?_, ?_⟩
  · apply Variables.size_eq_card
    intro name
    rw [same, contains_after, List.mem_toFinset, Variables.contains_eq, Variables.get?_empty]
    simp
  · intro name value held
    have words : vars.Words := by
      rw [same]
      exact words_after Variables.words_empty lines
    have word := words name value held
    refine ⟨word, answer_of_held word held, ?_⟩
    intro other left
    exact ⟨answer_copy_of_held left word held, by rw [Variables.get?_assign, if_pos rfl]⟩
  · intro name word unheld
    refine ⟨answer_of_unheld word unheld, ?_⟩
    intro other left
    exact answer_copy_of_unheld left word unheld

theorem stored_usable_after_exit :
    let first := Console.start .postfixTokens true (none : Room)
    let second := (first.perform (.line "x = 5".toList)).effect.console
    let last := (second.perform (.input (Utf8.encode "y=x\nx=7\n/exit\nz=1".toList) .closed)).effect.console
    last.vars.size = 2 ∧ answer last.vars "y".toList = (.ok (some 5), last.vars) ∧
      answer last.vars "z".toList = (.error .invalidExpression, last.vars) := by
  intro first second last
  have heard := ((Console.Heard.start .postfixTokens true (none : Room)).step (.line "x = 5".toList)).step
    (.input (Utf8.encode "y=x\nx=7\n/exit\nz=1".toList) .closed)
  obtain ⟨size, held, unheld⟩ := stored_usable (.heard heard)
  have assigned : targets .empty ["x = 5".toList, "y=x".toList, "x=7".toList, "/exit".toList] =
      ["x".toList, "y".toList, "x".toList] := rfl
  refine ⟨?_, (held "y".toList 5 rfl).2.1, (unheld "z".toList rfl rfl).1⟩
  rw [size]
  change (targets .empty ["x = 5".toList, "y=x".toList, "x=7".toList, "/exit".toList]).toFinset.card = 2
  rw [assigned]
  decide

end Line
end LineCalculator

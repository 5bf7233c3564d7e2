import LineCalculator.Proofs.Console.Views
import LineCalculator.Proofs.Expression.LongestRuns

/- Lines with a character outside ASCII that is no blank. Whatever else stands in such a line, it assigns
   nothing and has no value, and its fault is told from its equals signs. -/
namespace LineCalculator

theorem Request.ascii_of_assignment {line : List Char} {target : Name} {right : RightSide}
    (asked : ofLine line = .ok (.assignment target right)) : ∀ c ∈ line, c.toNat < 0x80 := by
  have letter : ∀ {name : Name}, name.isWord = true → ∀ c ∈ name, c.toNat < 0x80 := by
    intro name word c mem
    have bounds := toNat_bounds_of_isAlpha (Name.isAlpha_of_mem word mem)
    omega
  obtain ⟨word, text, rfl, read⟩ := ofLine_eq_assignment_iff.mp asked
  intro c mem
  rcases List.mem_append.mp mem with left | behind
  · exact letter word c left
  · rcases List.mem_cons.mp behind with rfl | inside
    · decide
    · rcases RightSide.ofText?_eq_some_iff.mp read with ⟨value, number, _⟩ | ⟨copied, _⟩
      · rcases Decimal.mem_of_readInt? number c inside with digit | rfl | rfl
        · have bound := (Char.isDigit_iff_toNat.mp digit).2
          exact Nat.lt_of_le_of_lt bound (by decide)
        · decide
        · decide
      · exact letter copied c inside

theorem Request.no_equals_of_expression {line text : List Char} (asked : ofLine line = .ok (.expression text)) :
    '=' ∉ line := by
  unfold ofLine at asked
  split at asked
  · next zero => exact List.count_eq_zero.mp zero
  · dsimp only at asked
    split at asked
    · split at asked <;> simp at asked
    · simp at asked
  · simp at asked

theorem Text.mem_dropBlanks {line : List Char} {c : Char} (mem : c ∈ line) (visible : isBlank c = false) :
    c ∈ dropBlanks line := by
  simp [dropBlanks, mem, visible]

section
variable {line : List Char} {c : Char} (mem : c ∈ line) (wide : 0x80 ≤ c.toNat) (visible : Text.isBlank c = false)
include mem wide visible

theorem Request.ofLine_of_wide (equals : '=' ∈ line) :
    ofLine (Text.dropBlanks line) = .error .invalidIdentifier ∨
      ofLine (Text.dropBlanks line) = .error .invalidAssignment := by
  cases request : ofLine (Text.dropBlanks line) with
  | error fault => rcases ofLine_eq_error request with rfl | rfl <;> simp
  | ok asked =>
    cases asked with
    | expression text =>
      have kept : '=' ∈ Text.dropBlanks line := Text.mem_dropBlanks equals (by decide)
      exact absurd kept (no_equals_of_expression request)
    | assignment target right =>
      have ascii := ascii_of_assignment request c (Text.mem_dropBlanks mem visible)
      omega

theorem Variables.tokens_of_wide (vars : Variables) : vars.tokens line = .error .invalidExpression := by
  obtain ⟨proper, bad⟩ := Lexeme.foreign_of_wide wide
  have inside := Lexeme.mark_mem_cut proper (Text.mem_dropBlanks mem visible)
  obtain ⟨before, rest, parts⟩ := List.append_of_mem inside
  exact tokens_eq_error_iff.mpr ⟨before, .mark c, rest, parts, bad _ _⟩

namespace Console

theorem reply_of_wide {ω : Type} (console : Console ω) :
    ∃ fault, console.reply line = (.error fault, console.vars) ∧
      if '=' ∈ line then fault = .invalidIdentifier ∨ fault = .invalidAssignment
      else fault = .invalidExpression := by
  by_cases equals : '=' ∈ line
  · rcases Request.ofLine_of_wide mem wide visible equals with target | right
    · exact ⟨_, reply_of_error target console, by simp [equals]⟩
    · exact ⟨_, reply_of_error right console, by simp [equals]⟩
  · have request : Request.ofLine (Text.dropBlanks line) = .ok (.expression (Text.dropBlanks line)) :=
      Request.ofLine_expression fun kept => equals (List.mem_filter.mp kept).1
    have unread : console.vars.tokens line = .error .invalidExpression :=
      Variables.tokens_of_wide mem wide visible console.vars
    have unordered := Variables.postfixTokens_of_tokens_error unread
    have worthless := Variables.value_of_postfixTokens_error unordered
    refine ⟨.invalidExpression, ?_, by simp [equals]⟩
    rw [reply_of_expression request]
    cases view : console.view <;> simp [shown, view, unread, unordered, worthless, Except.map]

end Console
end
end LineCalculator

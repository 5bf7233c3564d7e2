import LineCalculator.Proofs.Expression.Counting
import LineCalculator.Proofs.Expression.Faults
import LineCalculator.Proofs.Expression.Places

/- Reading and ordering a text in one pass comes to the same as reading all of it first: a fault of
   either is the same fault, whichever is met first. So a line that cannot be read to its end, or whose
   parentheses do not match, is refused before anything is divided. -/
namespace LineCalculator

namespace Cursor
variable {lookup : Lookup} {cursor after : Cursor} {reading : Reading}

theorem length_rest_of_next (read : cursor.next lookup = (some reading, after)) :
    after.rest.length < cursor.rest.length := by
  obtain ⟨rest, ended⟩ := cursor
  cases rest with
  | nil => simp [next] at read
  | cons l others =>
    cases item : (l.read lookup ended).item with
    | ok t =>
      obtain ⟨-, rfl⟩ : _ ∧ Cursor.mk others t.endsOperand = after := by simpa [next, item] using read
      exact Nat.lt_succ_self others.length
    | error fault =>
      obtain ⟨-, rfl⟩ : _ ∧ Cursor.mk [] ended = after := by simpa [next, item] using read
      exact Nat.succ_pos others.length

/-- Orders while it reads: a token is read only when the yard has dealt with those before it, and
    nothing is read after the first fault of either. -/
def convert (lookup : Lookup) (yard : Yard) (cursor : Cursor) : Except Fault (List Token) :=
  match _read : cursor.next lookup with
  | (none, _) => yard.finish
  | (some reading, after) => do
    let token ← reading.item
    let moved ← yard.step token
    after.convert lookup moved
termination_by cursor.rest.length
decreasing_by exact length_rest_of_next ‹_›

theorem convert_of_next (read : cursor.next lookup = (some reading, after)) (yard : Yard) :
    cursor.convert lookup yard = (do
      let token ← reading.item
      let moved ← yard.step token
      after.convert lookup moved) := by
  rw [convert]
  split
  · next none =>
    rw [read] at none
    cases none
  · next some =>
    rw [read] at some
    cases some
    rfl

theorem convert_eq (lookup : Lookup) (yard : Yard) (cursor : Cursor) :
    cursor.convert lookup yard =
      (yard.convert (Lexeme.items lookup cursor.afterOperand cursor.rest)).result := by
  obtain ⟨rest, ended⟩ := cursor
  induction rest generalizing yard ended with
  | nil =>
    rw [convert]
    rfl
  | cons l others ih =>
    cases item : (l.read lookup ended).item with
    | error fault =>
      have read : next lookup ⟨l :: others, ended⟩ = (some (l.read lookup ended), ⟨[], ended⟩) := by
        simp [next, item]
      rw [convert_of_next read, item, Lexeme.items_cons_of_error item]
      rfl
    | ok t =>
      have read : next lookup ⟨l :: others, ended⟩ =
          (some (l.read lookup ended), ⟨others, t.endsOperand⟩) := by
        simp [next, item]
      rw [convert_of_next read, item, Lexeme.items_cons_of_ok item]
      change (yard.step t >>= fun moved => convert lookup moved ⟨others, t.endsOperand⟩) = _
      rw [Yard.convert]
      cases moved : yard.step t with
      | error fault => rfl
      | ok after => exact ih after t.endsOperand

end Cursor

namespace Variables
variable {vars : Variables} {text : List Char}

theorem postfixTokens_eq_convert (vars : Variables) (text : List Char) :
    vars.postfixTokens text =
      (Cursor.ofText (Text.dropBlanks text)).convert vars.get? Yard.empty :=
  (Cursor.convert_eq vars.get? Yard.empty (Cursor.ofText (Text.dropBlanks text))).symm

theorem tokens_of_postfixTokens_ok {out : List Token} (order : vars.postfixTokens text = .ok out) :
    ∃ ts, vars.tokens text = .ok ts := by
  obtain ⟨ts, items, _⟩ := Yard.convert_eq_ok order
  exact ⟨ts, Token.ofText_of_spells (Spells.ofItems_eq items)⟩

theorem postfixTokens_of_tokens_error {fault : Fault} (refused : vars.tokens text = .error fault) :
    vars.postfixTokens text = .error .invalidExpression := by
  cases order : vars.postfixTokens text with
  | error other => rw [Postfix.ofText_eq_error order]
  | ok out =>
    obtain ⟨ts, read⟩ := tokens_of_postfixTokens_ok order
    rw [read] at refused
    contradiction

theorem tokens_eq_error_iff :
    vars.tokens text = .error .invalidExpression ↔
      Text.Unreadable vars.get? (Text.dropBlanks text) := by
  have readable : (∃ ts, vars.tokens text = .ok ts) ↔
      ¬ Text.Unreadable vars.get? (Text.dropBlanks text) := Token.ofText_eq_ok_iff
  cases read : vars.tokens text with
  | error fault =>
    have same : fault = .invalidExpression := Token.ofText_eq_error read
    simpa [read, same] using readable
  | ok ts =>
    simpa [read] using readable

theorem postfixTokens_of_not_paired (unmatched : ¬ Text.Paired 0 (Text.dropBlanks text)) :
    vars.postfixTokens text = .error .invalidExpression := by
  cases order : vars.postfixTokens text with
  | error fault => rw [Postfix.ofText_eq_error order]
  | ok out =>
    obtain ⟨ts, read⟩ := tokens_of_postfixTokens_ok order
    rw [postfixTokens_of_tokens read] at order
    have balanced := (Postfix.ofTokens_eq_ok order).1
    have matched := ((Token.spells_of_ofText read).balanced_iff (Lexeme.cut_proper _) 0).mp balanced
    rw [Lexeme.cut_text] at matched
    contradiction

theorem value_of_postfixTokens_error {fault : Fault} (refused : vars.postfixTokens text = .error fault) :
    vars.value text = .error fault := by
  rw [value, refused]
  rfl

end Variables

theorem Line.answer_of_postfixTokens_error {vars : Variables} {line : List Char} {fault : Fault}
    (plain : '=' ∉ line) (refused : vars.postfixTokens line = .error fault) :
    Line.answer vars line = (.error fault, vars) := by
  have clear : '=' ∉ Text.dropBlanks line := fun mem => plain (List.mem_of_mem_filter mem)
  have again : vars.postfixTokens (Text.dropBlanks line) = .error fault := by
    rwa [Variables.postfixTokens_dropBlanks]
  rw [Line.answer_expression vars clear, Variables.value_of_postfixTokens_error again]
  rfl

/-- One pass over a text is the two stages in a row. Where the first stage fails, so does the pass, in the
    same way, wherever the second would have failed. A line with a place that cannot be read, or with
    parentheses that do not match, is an invalid expression whatever else stands in it. -/
theorem Variables.postfixTokens_in_stages (vars : Variables) (text : List Char) :
    vars.postfixTokens text =
        (Cursor.ofText (Text.dropBlanks text)).convert vars.get? Yard.empty ∧
      (∀ ts, vars.tokens text = .ok ts → vars.postfixTokens text = Postfix.ofTokens ts) ∧
      (∀ fault, vars.tokens text = .error fault →
        vars.postfixTokens text = .error .invalidExpression) ∧
      (Text.Unreadable vars.get? (Text.dropBlanks text) ↔
        vars.tokens text = .error .invalidExpression) ∧
      ('=' ∉ text →
        Text.Unreadable vars.get? (Text.dropBlanks text) ∨ ¬ Text.Paired 0 (Text.dropBlanks text) →
          Line.answer vars text = (.error .invalidExpression, vars)) := by
  refine ⟨postfixTokens_eq_convert vars text, fun ts => postfixTokens_of_tokens,
    fun fault => postfixTokens_of_tokens_error, tokens_eq_error_iff.symm, ?_⟩
  intro plain fault
  apply Line.answer_of_postfixTokens_error plain
  rcases fault with unreadable | unmatched
  · exact postfixTokens_of_tokens_error (tokens_eq_error_iff.mpr unreadable)
  · exact postfixTokens_of_not_paired unmatched

theorem Variables.postfixTokens_in_stages_of_two_faults :
    empty.tokens "8/0 + 1) $".toList = .error .invalidExpression ∧
      empty.postfixTokens "8/0 + 1) $".toList = .error .invalidExpression ∧
      Line.answer .empty "8/0 + 1) $".toList = (.error .invalidExpression, .empty) ∧
      Line.answer .empty "(8/0".toList = (.error .invalidExpression, .empty) := by
  have refused : empty.tokens "8/0 + 1) $".toList = .error .invalidExpression := by decide
  have unclosed : ¬ Text.Paired 0 (Text.dropBlanks "(8/0".toList) := by
    rw [show Text.dropBlanks "(8/0".toList = ['(', '8', '/', '0'] by decide]
    simp [Text.Paired]
  obtain ⟨_, _, later, unreadable, two⟩ := postfixTokens_in_stages empty "8/0 + 1) $".toList
  obtain ⟨_, _, _, _, one⟩ := postfixTokens_in_stages empty "(8/0".toList
  exact ⟨refused, later _ refused, two (by decide) (.inl (unreadable.mpr refused)),
    one (by decide) (.inr unclosed)⟩

end LineCalculator

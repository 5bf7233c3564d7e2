import Mathlib.Data.List.DropRight
import LineCalculator.Proofs.Console.Respelling
import LineCalculator.Proofs.Expression.Evaluation
import LineCalculator.Proofs.Expression.Renaming
import LineCalculator.Proofs.Expression.Staging

/- A line reads only the names that are written in it. Over variables that agree on these, its tokens, its
   answer and its effect are the same, whatever else is held; and once they are read, tokens keep the values
   of that moment. -/
namespace LineCalculator

namespace Line

/-- The longest runs of letters right of the equals sign, or of a whole line without one. -/
def Reads (line : List Char) (name : Name) : Prop :=
  .word name ∈ Lexeme.cut ((Text.dropBlanks line).rtakeWhile (· ≠ '='))

instance (line : List Char) (name : Name) : Decidable (Reads line name) :=
  inferInstanceAs (Decidable (_ ∈ _))

/-- Nothing that is made of the line tells the variables apart. -/
structure Alike (a b : Variables) (line : List Char) : Prop where
  tokens : a.tokens line = b.tokens line
  postfixTokens : a.postfixTokens line = b.postfixTokens line
  answer : (answer a line).1 = (answer b line).1
  effect : (Line.answer a line).2 = a ∧ (Line.answer b line).2 = b ∨
    ∃ name value, Assigns a line name value ∧ (Line.answer a line).2 = a.assign name value ∧
      Assigns b line name value ∧ (Line.answer b line).2 = b.assign name value

end Line

section
variable {lookup other : Lookup} {text : List Char}

theorem Lexeme.items_congr {lexemes : List Lexeme} (ended : Bool)
    (agree : ∀ name, .word name ∈ lexemes → other name = lookup name) :
    items other ended lexemes = items lookup ended lexemes := by
  have sameLexeme : Lexeme.rename id = id := by
    funext l
    cases l <;> rfl
  have sameToken : Except.map (ε := Fault) (Token.rename id) = id := by
    funext item
    cases item with
    | error fault => rfl
    | ok t => cases t <;> rfl
  have renamed := items_rename (f := id) ended agree
  rwa [sameLexeme, sameToken, List.map_id, List.map_id] at renamed

theorem Token.items_congr (agree : ∀ name, .word name ∈ Lexeme.cut text → other name = lookup name) :
    Token.items other text = Token.items lookup text :=
  Lexeme.items_congr false agree

end

namespace Variables
variable {a b : Variables} {line : List Char}

theorem tokens_of_equals (vars : Variables) (equals : '=' ∈ Text.dropBlanks line) :
    vars.tokens line = .error .invalidExpression := by
  cases read : vars.tokens line with
  | error fault => rw [Token.ofText_eq_error read]
  | ok ts => exact absurd equals (no_equals_of_tokens read)

theorem tokens_congr (agree : ∀ name, Line.Reads line name → a.get? name = b.get? name) :
    a.tokens line = b.tokens line ∧ a.postfixTokens line = b.postfixTokens line := by
  by_cases equals : '=' ∈ Text.dropBlanks line
  · have refused := fun vars => tokens_of_equals vars equals
    have unordered := fun vars => postfixTokens_of_tokens_error (refused vars)
    rw [refused a, refused b, unordered a, unordered b]
    exact ⟨rfl, rfl⟩
  · have whole : (Text.dropBlanks line).rtakeWhile (· ≠ '=') = Text.dropBlanks line := by
      apply List.rtakeWhile_eq_self_iff.mpr
      intro c mem
      exact decide_eq_true fun same => equals (same ▸ mem)
    have items : Token.items a.get? (Text.dropBlanks line) = Token.items b.get? (Text.dropBlanks line) := by
      apply Token.items_congr
      intro name mem
      exact agree name (by rwa [Line.Reads, whole])
    rw [tokens, tokens, postfixTokens, postfixTokens, Token.ofText, Token.ofText, Postfix.ofText,
      Postfix.ofText, items]
    exact ⟨rfl, rfl⟩

theorem rightValue_congr (agree : ∀ name, Line.Reads line name → a.get? name = b.get? name) {target : Name}
    {right : RightSide} (request : Request.ofLine (Text.dropBlanks line) = .ok (.assignment target right)) :
    a.rightValue right = b.rightValue right := by
  obtain ⟨_, text, plain, side⟩ := Request.ofLine_eq_assignment_iff.mp request
  rcases RightSide.ofText?_eq_some_iff.mp side with ⟨value, _, rfl⟩ | ⟨word, rfl⟩
  · rfl
  · have behind : (target ++ '=' :: text).rtakeWhile (· ≠ '=') = text := by
      have reversed : (target ++ '=' :: text).reverse = text.reverse ++ '=' :: target.reverse := by simp
      have clear : '=' ∉ text.reverse := by simpa using Name.equals_not_mem word
      rw [List.rtakeWhile, reversed, Text.takeWhile_append_equals clear, List.reverse_reverse]
    have reads : Line.Reads line text := by
      rw [Line.Reads, plain, behind, Lexeme.cut_word word]
      exact List.mem_singleton_self _
    rw [rightValue, rightValue, agree text reads]

end Variables

namespace Variables

def assignAll (vars : Variables) (pairs : List (Name × Int)) : Variables :=
  pairs.foldl (fun vars (name, value) => vars.assign name value) vars

theorem get?_assignAll_of_absent {vars : Variables} {pairs : List (Name × Int)} {name : Name}
    (absent : ∀ pair ∈ pairs, pair.1 ≠ name) : (vars.assignAll pairs).get? name = vars.get? name := by
  unfold assignAll
  induction pairs generalizing vars with
  | nil => rfl
  | cons pair rest ih =>
    rw [List.foldl_cons, ih fun later mem => absent later (List.mem_cons_of_mem pair mem), get?_assign,
      if_neg (absent pair (List.mem_cons_self ..))]

end Variables

structure Desk where
  vars : Variables
  evaluator : Evaluator

namespace Desk

inductive Task where
  | answer (line : List Char)
  | reduce (tokens : List Token)
  deriving DecidableEq, Repr

def perform (desk : Desk) : Task → Desk
  | .answer line => { desk with vars := (Line.answer desk.vars line).2 }
  | .reduce tokens => { desk with evaluator := (desk.evaluator.evaluate tokens).2 }

def after (desk : Desk) (tasks : List Task) : Desk := tasks.foldl perform desk

end Desk

namespace Line
variable {a b vars : Variables} {line : List Char}

theorem answer_cases (agree : ∀ name, Reads line name → a.get? name = b.get? name) :
    (∃ outcome, answer a line = (outcome, a) ∧ answer b line = (outcome, b)) ∨
      ∃ name value, Assigns a line name value ∧ Assigns b line name value := by
  cases request : Request.ofLine (Text.dropBlanks line) with
  | error fault => exact .inl ⟨.error fault, by simp [answer, request], by simp [answer, request]⟩
  | ok asked =>
    cases asked with
    | expression text =>
      have plain := Request.ofLine_eq_expression request
      have values : a.value text = b.value text := by
        rw [plain, Variables.value_dropBlanks, Variables.value_dropBlanks, Variables.value, Variables.value,
          (Variables.tokens_congr agree).2]
      exact .inl ⟨(b.value text).map some, by simp [answer, request, values], by simp [answer, request]⟩
    | assignment target right =>
      have rights := Variables.rightValue_congr agree request
      cases moment : b.rightValue right with
      | error fault =>
        rw [moment] at rights
        exact .inl ⟨.error fault, by simp [answer, request, rights], by simp [answer, request, moment]⟩
      | ok value =>
        rw [moment] at rights
        exact .inr ⟨target, value, assigns_iff.mpr ⟨right, request, rights⟩,
          assigns_iff.mpr ⟨right, request, moment⟩⟩

theorem alike_of_agree (agree : ∀ name, Reads line name → a.get? name = b.get? name) : Alike a b line := by
  obtain ⟨tokens, postfixTokens⟩ := Variables.tokens_congr agree
  rcases answer_cases agree with ⟨outcome, first, second⟩ | ⟨name, value, first, second⟩
  · exact ⟨tokens, postfixTokens, by rw [first, second], .inl ⟨by rw [first], by rw [second]⟩⟩
  · have answered := answer_of_assigns first
    have answered' := answer_of_assigns second
    exact ⟨tokens, postfixTokens, by rw [answered, answered'],
      .inr ⟨name, value, first, by rw [answered], second, by rw [answered']⟩⟩

theorem answer_of_postfixTokens {out : List Token} (order : vars.postfixTokens line = .ok out) :
    (answer vars line).1 = (Postfix.value out).map some := by
  obtain ⟨ts, read⟩ := Variables.tokens_of_postfixTokens_ok order
  rw [answer_expression vars (Variables.no_equals_of_tokens read), Variables.value_dropBlanks,
    Variables.value, order]
  rfl

/-- Variables that agree on the names right of the equals sign of a line, or on all its names where it has
    none, cannot be told apart by it. So variables that it does not read can be added, and what its postfix
    tokens are reduced to, after whatever else, is the answer of the moment when they were read. -/
theorem reads_only_its_names (line : List Char) :
    (∀ a b : Variables, (∀ name, Reads line name → a.get? name = b.get? name) → Alike a b line) ∧
    (∀ vars extra, (∀ pair ∈ extra, ¬ Reads line pair.1) →
      Alike (Variables.assignAll vars extra) vars line) ∧
    ∀ (desk : Desk) out, desk.vars.postfixTokens line = .ok out → ∀ tasks,
      ((desk.after tasks).evaluator.evaluate out).1.map some = (answer desk.vars line).1 := by
  refine ⟨fun a b => alike_of_agree, ?_, ?_⟩
  · intro vars extra unread
    apply alike_of_agree
    intro name reads
    apply Variables.get?_assignAll_of_absent
    rintro pair mem rfl
    exact unread pair mem reads
  · intro desk out order tasks
    rw [Evaluator.evaluate_eq_value, answer_of_postfixTokens order]

theorem reads_only_its_names_in_product :
    let line := "x y * X".toList
    let vars := (Variables.empty.assign "xy".toList 2).assign "X".toList 3
    let more := vars.assignAll [("x".toList, 7), ("xyX".toList, 1), ("XY".toList, 9)]
    let tasks := [Desk.Task.answer "xy=50".toList, Desk.Task.reduce [.closing]]
    let later := Desk.after ⟨vars, .fresh⟩ tasks
    Alike more vars line ∧ Alike vars (vars.assign "y".toList 4) line ∧
      (answer vars line).1 = .ok (some 6) ∧ (answer later.vars line).1 = .ok (some 150) ∧
      (later.evaluator.evaluate
        [.reference "xy".toList 2, .reference "X".toList 3, .operation .multiply]).1.map some =
          (answer vars line).1 := by
  intro line vars more tasks later
  obtain ⟨agree, extra, kept⟩ := reads_only_its_names line
  have unread : ¬ Reads line "y".toList := by decide
  refine ⟨extra vars _ (by decide), agree _ _ ?_, by decide, by decide, kept ⟨vars, .fresh⟩ _ (by decide) tasks⟩
  intro name reads
  have apart : "y".toList ≠ name := fun same => unread (same ▸ reads)
  rw [Variables.get?_assign vars "y".toList 4, if_neg apart]

end Line

end LineCalculator

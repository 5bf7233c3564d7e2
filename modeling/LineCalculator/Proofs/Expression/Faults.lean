import LineCalculator.Line
import LineCalculator.Proofs.Expression.Reading
import LineCalculator.Proofs.Fallible

/- Which faults a line can have. Reading and ordering know one fault only, and a line never has a fault
   of input or output. -/
namespace LineCalculator

theorem Token.ofMark_eq_error {afterOperand : Bool} {c : Char} {fault : Fault}
    (h : ofMark afterOperand c = .error fault) : fault = .invalidExpression := by
  unfold ofMark at h
  repeat' split at h
  all_goals simp_all

theorem Lexeme.read_eq_error {lookup : Lookup} {afterOperand : Bool} {l : Lexeme} {fault : Fault}
    (h : (l.read lookup afterOperand).item = .error fault) : fault = .invalidExpression := by
  cases l with
  | digits text => cases value : Decimal.readNat? text <;> simp_all [read]
  | word name => cases value : lookup name <;> simp_all [read]
  | mark c => exact Token.ofMark_eq_error h

theorem Lexeme.fault_of_items {lookup : Lookup} {afterOperand : Bool} {lexemes : List Lexeme}
    {fault : Fault} (h : .error fault ∈ items lookup afterOperand lexemes) :
    fault = .invalidExpression := by
  induction lexemes generalizing afterOperand with
  | nil => simp at h
  | cons l rest ih =>
    cases first : (l.read lookup afterOperand).item with
    | error other =>
      rw [items_cons_of_error first] at h
      have same : fault = other := by simpa using h
      rw [same]
      exact read_eq_error first
    | ok t =>
      rw [items_cons_of_ok first] at h
      exact ih (by simpa using h)

theorem Token.ofText_eq_error {lookup : Lookup} {text : List Char} {fault : Fault}
    (h : ofText lookup text = .error fault) : fault = .invalidExpression := by
  have found : ∀ source : List (Except Fault Token),
      source.mapM id = .error fault → .error fault ∈ source := by
    intro source failed
    induction source with
    | nil => contradiction
    | cons item rest ih =>
      rw [List.mapM_cons] at failed
      rcases Except.bind_eq_error_iff.mp failed with here | ⟨t, _, later⟩
      · exact List.mem_cons.mpr (Or.inl here.symm)
      · rcases Except.bind_eq_error_iff.mp later with inside | ⟨ts, _, none⟩
        · exact List.mem_cons_of_mem _ (ih inside)
        · contradiction
  exact Lexeme.fault_of_items (found _ h)

namespace Yard
variable {yard : Yard} {fault : Fault}

theorem step_eq_error {t : Token} (h : yard.step t = .error fault) : fault = .invalidExpression := by
  cases t with
  | closing =>
    simp only [step] at h
    split at h
    · exact (Except.error.inj h).symm
    · contradiction
  | number n => contradiction
  | reference name n => contradiction
  | operation o => contradiction
  | sign s => contradiction
  | opening => contradiction

theorem finish_eq_error (h : yard.finish = .error fault) : fault = .invalidExpression := by
  unfold finish at h
  split at h
  · exact (Except.error.inj h).symm
  · contradiction

theorem convert_eq_error {items : List (Except Fault Token)}
    (h : (yard.convert items).result = .error fault) :
    fault = .invalidExpression ∨ .error fault ∈ items := by
  induction items generalizing yard with
  | nil => exact Or.inl (finish_eq_error h)
  | cons item rest ih =>
    cases item with
    | error other =>
      have same : other = fault := by simpa [convert] using h
      exact Or.inr (by simp [same])
    | ok t =>
      cases moved : yard.step t with
      | error other =>
        have same : other = fault := by simpa [convert, moved] using h
        rw [← same]
        exact Or.inl (step_eq_error moved)
      | ok next =>
        rcases ih (by simpa [convert, moved] using h) with here | later
        · exact Or.inl here
        · exact Or.inr (List.mem_cons_of_mem _ later)

end Yard

namespace Postfix

theorem ofText_eq_error {lookup : Lookup} {text : List Char} {fault : Fault}
    (h : ofText lookup text = .error fault) : fault = .invalidExpression := by
  rcases Yard.convert_eq_error h with here | read
  · exact here
  · exact Lexeme.fault_of_items read

theorem push_eq_error {stack : List Int} {t : Token} {fault : Fault}
    (h : push stack t = .error fault) : fault = .invalidExpression ∨ fault = .divisionByZero := by
  unfold push at h
  split at h
  · contradiction
  · contradiction
  · contradiction
  · next o right left below =>
    have cause := (Operation.apply_eq_error_iff ..).mp (Except.map_eq_error_iff.mp h)
    exact Or.inr cause.2.2
  · exact Or.inl (Except.error.inj h).symm

theorem value_eq_error {ts : List Token} {fault : Fault} (h : value ts = .error fault) :
    fault = .invalidExpression ∨ fault = .divisionByZero := by
  have pushes : ∀ (us : List Token) (stack : List Int), us.foldlM push stack = .error fault →
      fault = .invalidExpression ∨ fault = .divisionByZero := by
    intro us
    induction us with
    | nil =>
      intro stack failed
      contradiction
    | cons u us ih =>
      intro stack failed
      rw [List.foldlM_cons] at failed
      rcases Except.bind_eq_error_iff.mp failed with here | ⟨next, _, later⟩
      · exact push_eq_error here
      · exact ih next later
  rcases Except.bind_eq_error_iff.mp h with run | ⟨last, _, rest⟩
  · exact pushes ts [] run
  · unfold single at rest
    split at rest
    · contradiction
    · exact Or.inl (Except.error.inj rest).symm

end Postfix

theorem Variables.value_eq_error {vars : Variables} {text : List Char} {fault : Fault}
    (h : vars.value text = .error fault) : fault = .invalidExpression ∨ fault = .divisionByZero := by
  rcases Except.bind_eq_error_iff.mp h with order | ⟨out, _, value⟩
  · exact Or.inl (Postfix.ofText_eq_error order)
  · exact Postfix.value_eq_error value

theorem Request.ofLine_eq_error {line : List Char} {fault : Fault}
    (h : Request.ofLine line = .error fault) :
    fault = .invalidIdentifier ∨ fault = .invalidAssignment := by
  unfold Request.ofLine at h
  split at h
  · contradiction
  · dsimp only at h
    split at h
    · split at h
      · contradiction
      · exact Or.inr (Except.error.inj h).symm
    · exact Or.inl (Except.error.inj h).symm
  · exact Or.inr (Except.error.inj h).symm

theorem Variables.rightValue_eq_error {vars : Variables} {right : RightSide} {fault : Fault}
    (h : vars.rightValue right = .error fault) : fault = .unknownVariable := by
  unfold Variables.rightValue at h
  split at h
  · contradiction
  · split at h
    · contradiction
    · exact (Except.error.inj h).symm

theorem Line.answer_ne_io (vars : Variables) (line : List Char) (reason : String) :
    (Line.answer vars line).1 ≠ .error (.io reason) := by
  intro h
  unfold Line.answer at h
  cases request : Request.ofLine (Text.dropBlanks line) with
  | error fault =>
    have same : fault = .io reason := by simpa [request] using h
    rcases Request.ofLine_eq_error request with cause | cause <;> simp [cause] at same
  | ok asked =>
    cases asked with
    | expression text =>
      have failed : vars.value text = .error (.io reason) := by
        simpa [request, Except.map_eq_error_iff] using h
      rcases Variables.value_eq_error failed with cause | cause <;> contradiction
    | assignment target right =>
      cases value : vars.rightValue right with
      | ok v => simp [request, value] at h
      | error fault =>
        have same : fault = .io reason := by simpa [request, value] using h
        simp [Variables.rightValue_eq_error value] at same

end LineCalculator

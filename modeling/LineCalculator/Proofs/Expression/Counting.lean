import LineCalculator.Expression.Value
import LineCalculator.Proofs.Expression.Yard
import LineCalculator.Proofs.Fallible

/- What a conversion and an evaluation that succeed say about the tokens in front of them: the
   parentheses match, and there is one operand more than there are operations. -/
namespace LineCalculator

def Token.isOperation : Token → Bool
  | .operation _ => true
  | _ => false

namespace Postfix

theorem push_length {stack next : List Int} {t : Token} (h : push stack t = .ok next) :
    next.length + [t].countP Token.isOperation = stack.length + [t].countP Token.isOperand := by
  cases t with
  | number n => cases h; rfl
  | reference name n => cases h; rfl
  | sign s =>
    cases stack with
    | nil => simp [push] at h
    | cons operand below => cases h; rfl
  | operation o =>
    cases stack with
    | nil => simp [push] at h
    | cons right below =>
      cases below with
      | nil => simp [push] at h
      | cons left below =>
        obtain ⟨n, _, rfl⟩ := Except.map_eq_ok_iff.mp h
        rfl
  | opening => simp [push] at h
  | closing => simp [push] at h

theorem pushAll_length {stack last : List Int} {ts : List Token}
    (h : ts.foldlM push stack = .ok last) :
    last.length + ts.countP Token.isOperation = stack.length + ts.countP Token.isOperand := by
  induction ts generalizing stack with
  | nil =>
    cases h
    rfl
  | cons t ts ih =>
    rw [List.foldlM_cons] at h
    obtain ⟨next, moved, later⟩ := Except.bind_eq_ok_iff.mp h
    have first := push_length moved
    have rest := ih later
    have whole : t :: ts = [t] ++ ts := rfl
    rw [whole, List.countP_append, List.countP_append]
    omega

theorem single_eq_ok {stack : List Int} {v : Int} (h : single stack = .ok v) : stack = [v] := by
  unfold single at h
  split at h
  · rw [Except.ok.inj h]
  · contradiction

theorem count_of_value {ts : List Token} {v : Int} (h : value ts = .ok v) :
    ts.countP Token.isOperand = ts.countP Token.isOperation + 1 := by
  obtain ⟨last, run, rest⟩ := Except.bind_eq_ok_iff.mp h
  have lengths := pushAll_length run
  rw [single_eq_ok rest] at lengths
  simp only [List.length_cons, List.length_nil] at lengths
  omega

theorem ofTokens_eq_ok {ts out : List Token} (h : ofTokens ts = .ok out) :
    Balanced 0 ts ∧ ∀ kind : Token → Bool, kind .opening = false → kind .closing = false →
      out.countP kind = ts.countP kind := by
  obtain ⟨last, moved, finished⟩ := steps_of_ofTokens h
  obtain ⟨closed, same⟩ := Yard.finish_eq_ok finished
  constructor
  · exact Yard.balanced_steps moved closed
  · intro kind noOpening noClosing
    have kept := Yard.tally_steps noOpening noClosing moved
    simpa [Yard.tally, Yard.empty, same] using kept

end Postfix
end LineCalculator

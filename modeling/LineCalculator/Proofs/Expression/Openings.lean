import Mathlib.Data.List.Induction
import LineCalculator.Proofs.Expression.Yard

/- Where the conversion of a source ends, for items of any kind in any order. Only the faults of the source
   and its parentheses count: a conversion goes through exactly where they match. -/
namespace LineCalculator

namespace Postfix

def unclosed (items : List (Except Fault Token)) : Nat :=
  items.foldl (fun depth item => item.toOption.elim depth (track depth)) 0

/-- Behind these items such an item ends the conversion: a fault of the source, or a closing parenthesis
    where none is open. -/
inductive Stops (before : List (Except Fault Token)) : Except Fault Token → Fault → Prop where
  | faulty (fault : Fault) : Stops before (.error fault) fault
  | unopened (none : unclosed before = 0) : Stops before (.ok .closing) .invalidExpression

def Clear (items : List (Except Fault Token)) : Prop :=
  ∀ before item rest, items = before ++ item :: rest → ∀ fault, ¬ Stops before item fault

variable {items before : List (Except Fault Token)}

theorem Clear.of_append {rest : List (Except Fault Token)} (clear : Clear (before ++ rest)) :
    Clear before := by
  intro front item back same
  exact clear front item (back ++ rest) (by rw [same, List.append_assoc, List.cons_append])

theorem Clear.last {item : Except Fault Token} (clear : Clear (before ++ [item])) (fault : Fault) :
    ¬ Stops before item fault :=
  clear before item [] rfl fault

end Postfix

namespace Yard
variable {yard next : Yard} {t : Token} {ts : List Token}

theorem convert_append_of_ok (run : yard.steps ts = .ok next) (rest : List (Except Fault Token)) :
    yard.convert (ts.map .ok ++ rest) = next.convert rest := by
  induction ts generalizing yard with
  | nil =>
    cases run
    rfl
  | cons t ts ih =>
    obtain ⟨middle, moved, later⟩ := steps_cons_eq_ok run
    rw [List.map_cons, List.cons_append, convert, moved]
    exact ih later

theorem steps_append_eq_ok {first rest : List Token} (run : yard.steps (first ++ rest) = .ok next) :
    ∃ middle, yard.steps first = .ok middle ∧ middle.steps rest = .ok next := by
  rw [steps, List.foldlM_append] at run
  exact Except.bind_eq_ok_iff.mp run

theorem count_opening_steps (run : yard.steps ts = .ok next) :
    next.stack.count .opening = ts.foldl track (yard.stack.count .opening) := by
  refine steps_induction (motive := fun read last =>
    last.stack.count .opening = read.foldl track (yard.stack.count .opening)) rfl ?_ run
  intro read middle t last here moved
  rw [count_opening_step moved, here, List.foldl_append, List.foldl_cons, List.foldl_nil]

theorem waiting_step (waiting : ∀ x ∈ yard.stack, x.endsOperand = false) (h : yard.step t = .ok next) :
    ∀ x ∈ next.stack, x.endsOperand = false := by
  cases moves_of_step h with
  | operand operand free stays => exact fun x mem => waiting x (by simp [mem])
  | operation tight loose =>
    simp only [List.forall_mem_cons]
    exact ⟨rfl, fun x mem => waiting x (by simp [mem])⟩
  | wait waits =>
    simp only [List.forall_mem_cons]
    exact ⟨by cases t <;> simp_all [Token.isSign, Token.endsOperand], waiting⟩
  | close inside => exact fun x mem => waiting x (by simp [mem])

theorem waiting_of_steps (run : empty.steps ts = .ok next) : ∀ x ∈ next.stack, x.endsOperand = false := by
  refine steps_induction (motive := fun _ last => ∀ x ∈ last.stack, x.endsOperand = false) ?_ ?_ run
  · simp [empty]
  · exact waiting_step

theorem finish_of_opening (mem : .opening ∈ yard.stack) : yard.finish = .error .invalidExpression := by
  rw [finish, if_pos (List.any_eq_true.mpr ⟨_, mem, rfl⟩)]

theorem finish_of_closed (waiting : ∀ x ∈ yard.stack, x.endsOperand = false)
    (closed : .opening ∉ yard.stack) : yard.finish = .ok (yard.placed.reverse ++ yard.stack) := by
  have plain : yard.stack.any Token.isParenthesis = false := by
    rw [List.any_eq_false]
    intro x mem
    have ends := waiting x mem
    cases x <;> simp_all [Token.isParenthesis, Token.endsOperand]
  simp [finish, plain]

end Yard

namespace Postfix
variable {items before : List (Except Fault Token)}

theorem unclosed_map (ts : List Token) : unclosed (ts.map .ok) = ts.foldl track 0 := by
  simp [unclosed, List.foldl_map, Except.toOption]

theorem unclosed_eq_of_steps {ts : List Token} {last : Yard} (run : Yard.empty.steps ts = .ok last) :
    unclosed (ts.map .ok) = last.stack.count .opening := by
  rw [unclosed_map, Yard.count_opening_steps run]
  rfl

theorem clear_iff : Clear items ↔ ∃ ts last, items = ts.map .ok ∧ Yard.empty.steps ts = .ok last := by
  constructor
  · intro clear
    -- From the right: whether the last item stops the conversion is said of all items in front of it.
    induction items using List.reverseRecOn with
    | nil => exact ⟨[], Yard.empty, rfl, rfl⟩
    | append_singleton items item ih =>
      obtain ⟨ts, middle, rfl, run⟩ := ih clear.of_append
      cases item with
      | error fault => exact absurd (.faulty fault) (clear.last fault)
      | ok t =>
        have opened : t = .closing → .opening ∈ middle.stack := by
          rintro rfl
          rw [← List.count_pos_iff, ← unclosed_eq_of_steps run]
          exact Nat.pos_of_ne_zero fun none => clear.last _ (.unopened none)
        obtain ⟨last, moves⟩ := Yard.exists_moves opened
        refine ⟨ts ++ [t], last, by simp, ?_⟩
        rw [Yard.steps_append_of_ok run]
        exact Yard.steps_cons_of_ok (Yard.step_of_moves moves) []
  · rintro ⟨ts, last, rfl, run⟩ before item rest parts fault stop
    obtain ⟨front, back, rfl, rfl, others⟩ := List.map_eq_append_iff.mp parts
    obtain ⟨t, back, rfl, rfl, rfl⟩ := List.map_eq_cons_iff.mp others
    obtain ⟨middle, first, later⟩ := Yard.steps_append_eq_ok run
    obtain ⟨next, moved, _⟩ := Yard.steps_cons_eq_ok later
    cases stop with
    | unopened none =>
      rw [unclosed_eq_of_steps first] at none
      exact List.count_eq_zero.mp none (Yard.opening_mem_of_step moved rfl)

theorem ofItems_of_stop {item : Except Fault Token} {fault : Fault} (clear : Clear before)
    (stop : Stops before item fault) (rest : List (Except Fault Token)) :
    ofItems (before ++ item :: rest) = ⟨.error fault, rest⟩ := by
  obtain ⟨ts, last, rfl, run⟩ := clear_iff.mp clear
  rw [ofItems, Yard.convert_append_of_ok run]
  cases stop with
  | faulty => rfl
  | unopened none =>
    have closed : .opening ∉ last.stack := List.count_eq_zero.mp ((unclosed_eq_of_steps run).symm.trans none)
    simp only [Yard.convert, Yard.step_closing_of_none closed]

end Postfix
end LineCalculator

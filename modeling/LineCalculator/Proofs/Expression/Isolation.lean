import LineCalculator.Proofs.Expression.Openings

/- Groups are converted on their own. What a token does to a yard depends neither on what lies under the
   nearest opening parenthesis nor on what is placed already, so the tokens of a group come out in one piece. -/
namespace LineCalculator

namespace Yard
variable {yard next : Yard} {t : Token} {ts : List Token}

theorem Moves.anywhere (h : Moves t yard next) :
    ∃ more, next.placed = more ++ yard.placed ∧
      ∀ base placed, (∀ top ∈ base.head?, top = .opening) →
        Moves t ⟨yard.stack ++ base, placed⟩ ⟨next.stack ++ base, more ++ placed⟩ := by
  -- Nothing may be left of the stack itself: then the parenthesis under it is on top, and stays.
  have bottom : ∀ {below base : List Token} {loose : Token → Prop}, (∀ top ∈ below.head?, loose top) →
      loose .opening → (∀ top ∈ base.head?, top = .opening) → ∀ top ∈ (below ++ base).head?, loose top := by
    intro below base loose stays opening frame top mem
    cases below with
    | nil =>
      rw [frame top mem]
      exact opening
    | cons first below => exact stays top mem
  cases h with
  | @operand _ signs below placed operand free stays =>
    refine ⟨signs.reverse ++ [t], by simp, ?_⟩
    intro base placed frame
    simpa using Moves.operand operand free (bottom stays rfl frame)
  | @operation o waiting below placed tight loose =>
    refine ⟨waiting.reverse, rfl, ?_⟩
    intro base placed frame
    have low : Token.opening.rank < o.rank := by cases o <;> decide
    simpa using Moves.operation tight (bottom loose low frame)
  | wait waits => exact ⟨[], rfl, fun base placed _ => .wait waits⟩
  | @close group below placed inside =>
    refine ⟨group.reverse, rfl, ?_⟩
    intro base placed frame
    have framed : Moves .closing ⟨group ++ .opening :: (below ++ base), placed⟩
        ⟨below ++ base, group.reverse ++ placed⟩ := .close inside
    simpa using framed

theorem steps_anywhere (run : yard.steps ts = .ok next) :
    ∃ more, next.placed = more ++ yard.placed ∧
      ∀ base placed, (∀ top ∈ base.head?, top = .opening) →
        steps ⟨yard.stack ++ base, placed⟩ ts = .ok ⟨next.stack ++ base, more ++ placed⟩ := by
  refine steps_induction (motive := fun read last => ∃ more, last.placed = more ++ yard.placed ∧
    ∀ base placed, (∀ top ∈ base.head?, top = .opening) →
      steps ⟨yard.stack ++ base, placed⟩ read = .ok ⟨last.stack ++ base, more ++ placed⟩) ?_ ?_ run
  · exact ⟨[], rfl, fun _ _ _ => rfl⟩
  · rintro read middle t last ⟨first, before, here⟩ moved
    obtain ⟨second, after, there⟩ := (moves_of_step moved).anywhere
    refine ⟨second ++ first, by rw [after, before, List.append_assoc], ?_⟩
    intro base placed frame
    rw [steps_append_of_ok (here base placed frame), List.append_assoc]
    exact steps_cons_of_ok (step_of_moves (there base _ frame)) []

theorem steps_of_balanced (balanced : Balanced (yard.stack.count .opening) ts) :
    ∃ last, yard.steps ts = .ok last ∧ .opening ∉ last.stack := by
  induction ts generalizing yard with
  | nil => exact ⟨yard, rfl, List.count_eq_zero.mp balanced⟩
  | cons t ts ih =>
    obtain ⟨opened, rest⟩ := balanced_cons_iff.mp balanced
    obtain ⟨middle, moves⟩ := exists_moves fun closes => List.count_pos_iff.mp (opened closes)
    have moved := step_of_moves moves
    rw [← count_opening_step moved] at rest
    obtain ⟨last, run, closed⟩ := ih rest
    exact ⟨last, by rw [steps_cons_of_ok moved, run], closed⟩

end Yard

namespace Postfix

theorem ofTokens_of_balanced {ts : List Token} (balanced : Balanced 0 ts) :
    ∃ last, Yard.empty.steps ts = .ok last ∧ .opening ∉ last.stack ∧
      ofTokens ts = .ok (last.placed.reverse ++ last.stack) := by
  have start : Balanced (Yard.empty.stack.count .opening) ts := balanced
  obtain ⟨last, run, closed⟩ := Yard.steps_of_balanced start
  have waiting := Yard.waiting_of_steps run
  exact ⟨last, run, closed, by rw [ofTokens_of_steps run, Yard.finish_of_closed waiting closed]⟩

theorem steps_group {group : List Token} (balanced : Balanced 0 group) :
    ∃ order, ofTokens group = .ok order ∧ ∀ stack placed,
      Yard.steps ⟨stack, placed⟩ (.opening :: group ++ [.closing]) = .ok ⟨stack, order.reverse ++ placed⟩ := by
  obtain ⟨inner, inside, none, order⟩ := ofTokens_of_balanced balanced
  refine ⟨_, order, ?_⟩
  intro stack placed
  obtain ⟨more, placed_eq, anywhere⟩ := Yard.steps_anywhere inside
  have opened : Yard.step ⟨stack, placed⟩ .opening = .ok ⟨.opening :: stack, placed⟩ := rfl
  have grouped : Yard.steps ⟨.opening :: stack, placed⟩ group =
      .ok ⟨inner.stack ++ .opening :: stack, more ++ placed⟩ := anywhere _ _ (by simp)
  have closed : Yard.step ⟨inner.stack ++ .opening :: stack, more ++ placed⟩ .closing =
      .ok ⟨stack, inner.stack.reverse ++ (more ++ placed)⟩ :=
    Yard.step_of_moves (.close fun x mem same => none (same ▸ mem))
  rw [List.cons_append, Yard.steps_cons_of_ok opened, Yard.steps_append_of_ok grouped,
    Yard.steps_cons_of_ok closed, Yard.steps_nil]
  simp [placed_eq, Yard.empty]

/-- A group in any place of any tokens is converted as it is on its own, and all that it changes is that its
    tokens stand there in one piece. -/
theorem ofTokens_around_group (before after out : List Token)
    (hollow : ofTokens (before ++ [.opening, .closing] ++ after) = .ok out) :
    ∃ front back, ∀ group, Balanced 0 group → ∃ order, ofTokens group = .ok order ∧
      ofTokens (before ++ [.opening] ++ group ++ [.closing] ++ after) = .ok (front ++ order ++ back) := by
  obtain ⟨last, run, finished⟩ := steps_of_ofTokens hollow
  have waiting := Yard.waiting_of_steps run
  obtain ⟨middle, first, later⟩ := Yard.steps_append_eq_ok run
  obtain ⟨⟨stack, placed⟩, start, empty⟩ := Yard.steps_append_eq_ok first
  obtain rfl : middle = ⟨stack, placed⟩ := (Except.ok.inj empty).symm
  obtain ⟨more, _, anywhere⟩ := Yard.steps_anywhere later
  refine ⟨placed.reverse, more.reverse ++ last.stack, ?_⟩
  intro group balanced
  obtain ⟨order, alone, grouped⟩ := steps_group balanced
  refine ⟨order, alone, ?_⟩
  have rest := anywhere [] (order.reverse ++ placed) (by simp)
  simp only [List.append_nil] at rest
  have converted : Yard.empty.steps (before ++ (.opening :: group ++ [.closing]) ++ after) =
      .ok ⟨last.stack, more ++ (order.reverse ++ placed)⟩ := by
    rw [List.append_assoc, Yard.steps_append_of_ok start, Yard.steps_append_of_ok (grouped stack placed), rest]
  have parts : before ++ [.opening] ++ group ++ [.closing] ++ after =
      before ++ (.opening :: group ++ [.closing]) ++ after := by simp
  have done : Yard.finish ⟨last.stack, more ++ (order.reverse ++ placed)⟩ =
      .ok ((more ++ (order.reverse ++ placed)).reverse ++ last.stack) :=
    Yard.finish_of_closed waiting (Yard.finish_eq_ok finished).1
  rw [parts, ofTokens_of_steps converted, done]
  simp

theorem ofTokens_around_group_of_sign :
    let before : List Token := [.number 8, .operation .divide, .sign .minus]
    let after : List Token := [.number 3, .operation .add]
    let group : List Token := [.number 2, .operation .add, .opening, .number 5, .closing]
    ofTokens (before ++ [.opening, .closing] ++ after) =
        .ok [.number 8, .number 3, .sign .minus, .operation .divide, .operation .add] ∧
      Balanced 0 group ∧ ∃ front back order, ofTokens group = .ok order ∧
        ofTokens (before ++ [.opening] ++ group ++ [.closing] ++ after) = .ok (front ++ order ++ back) := by
  intro before after group
  have balanced : Balanced 0 group := by simp [group, Balanced]
  obtain ⟨front, back, isolated⟩ := ofTokens_around_group before after _ rfl
  exact ⟨rfl, balanced, front, back, isolated group balanced⟩

end Postfix
end LineCalculator

import Mathlib.Data.List.Basic
import LineCalculator.Proofs.Expression.Openings

/- What waits on the stack of a yard, at every point of a conversion of any source: above the bottom and above
   each open parenthesis a stretch of operations that bind tighter and tighter, then signs. -/
namespace LineCalculator

/-- What may wait between two open parentheses, topmost first: signs, and under them at most two operations,
    each of a lower rank than the one above it. -/
def Stretch (tokens : List Token) : Prop :=
  ∃ (signs : List Sign) (operations : List Operation),
    tokens = signs.map .sign ++ operations.map .operation ∧ operations.length ≤ 2 ∧
      operations.Pairwise fun upper lower => lower.rank < upper.rank

def Yard.stretches (stack : List Token) : List (List Token) := stack.splitOnP (· = .opening)

def Layered (stack : List Token) : Prop := ∀ stretch ∈ Yard.stretches stack, Stretch stretch

theorem Operation.rank_bounds (o : Operation) : 1 ≤ o.rank ∧ o.rank ≤ 2 := by
  cases o <;> decide

theorem Operation.length_le_two {operations : List Operation}
    (falling : operations.Pairwise fun upper lower => lower.rank < upper.rank) : operations.length ≤ 2 := by
  match operations with
  | [] => exact Nat.zero_le 2
  | [_] => exact Nat.le_succ 1
  | [_, _] => exact Nat.le_refl 2
  | first :: second :: third :: rest =>
    obtain ⟨above, falling⟩ := List.pairwise_cons.mp falling
    have upper : second.rank < first.rank := above second (by simp)
    have lower : third.rank < second.rank := (List.pairwise_cons.mp falling).1 third (by simp)
    have top := first.rank_bounds.2
    have bottom := third.rank_bounds.1
    omega

namespace Stretch
variable {tokens front : List Token}

theorem nil : Stretch [] := ⟨[], [], rfl, Nat.zero_le 2, .nil⟩

theorem not_opening (stretch : Stretch tokens) : .opening ∉ tokens := by
  obtain ⟨signs, operations, rfl, _, _⟩ := stretch
  simp

theorem of_append (stretch : Stretch (front ++ tokens)) : Stretch tokens := by
  obtain ⟨signs, operations, parts, _, falling⟩ := stretch
  have rest : tokens = (signs.drop front.length).map .sign ++
      (operations.drop (front.length - signs.length)).map .operation := by
    calc tokens
        = (front ++ tokens).drop front.length := List.drop_left.symm
      _ = _ := by rw [parts, List.drop_append, List.length_map, List.map_drop, List.map_drop]
  have shorter := falling.sublist (List.drop_sublist (front.length - signs.length) operations)
  exact ⟨_, _, rest, Operation.length_le_two shorter, shorter⟩

theorem sign (s : Sign) (stretch : Stretch tokens) : Stretch (.sign s :: tokens) := by
  obtain ⟨signs, operations, rfl, few, falling⟩ := stretch
  exact ⟨s :: signs, operations, rfl, few, falling⟩

theorem operation {o : Operation} (loose : ∀ top ∈ tokens.head?, top.rank < o.rank)
    (stretch : Stretch tokens) : Stretch (.operation o :: tokens) := by
  obtain ⟨signs, operations, rfl, _, falling⟩ := stretch
  cases signs with
  | cons s signs =>
    have below : Sign.rank < o.rank := loose (.sign s) (by simp)
    exact absurd below (Nat.lt_asymm (Sign.rank_above o))
  | nil =>
    have longer : (o :: operations).Pairwise fun upper lower => lower.rank < upper.rank := by
      refine List.pairwise_cons.mpr ⟨?_, falling⟩
      cases operations with
      | nil => simp
      | cons highest others =>
        have below : highest.rank < o.rank := loose (.operation highest) (by simp)
        refine List.forall_mem_cons.mpr ⟨below, ?_⟩
        intro lower mem
        exact Nat.lt_trans ((List.pairwise_cons.mp falling).1 lower mem) below
    exact ⟨[], o :: operations, rfl, Operation.length_le_two longer, longer⟩

end Stretch

theorem layered_iff_of_plain {top : List Token} (plain : .opening ∉ top) : Layered top ↔ Stretch top := by
  have one : Yard.stretches top = [top] := List.splitOnP_eq_singleton (by grind)
  simp [Layered, one]

theorem layered_append_opening {top : List Token} (plain : .opening ∉ top) (below : List Token) :
    Layered (top ++ .opening :: below) ↔ Stretch top ∧ Layered below := by
  have parted : Yard.stretches (top ++ .opening :: below) = top :: Yard.stretches below :=
    List.splitOnP_append_cons_of_forall_mem (by grind) _ (by simp) below
  simp [Layered, parted]

namespace Layered
variable {stack front below : List Token}

theorem top (layered : Layered stack) :
    ∃ first below, stack = first ++ below ∧ Stretch first ∧
      ∀ other, Stretch other → Layered (other ++ below) := by
  by_cases opened : .opening ∈ stack
  · obtain ⟨first, below, rfl, plain⟩ := List.eq_append_cons_of_mem opened
    obtain ⟨here, rest⟩ := (layered_append_opening plain below).mp layered
    refine ⟨first, .opening :: below, rfl, here, ?_⟩
    intro other stretch
    exact (layered_append_opening stretch.not_opening below).mpr ⟨stretch, rest⟩
  · refine ⟨stack, [], (List.append_nil stack).symm, (layered_iff_of_plain opened).mp layered, ?_⟩
    intro other stretch
    rw [List.append_nil]
    exact (layered_iff_of_plain stretch.not_opening).mpr stretch

theorem of_append (plain : .opening ∉ front) (layered : Layered (front ++ below)) : Layered below := by
  by_cases opened : .opening ∈ below
  · obtain ⟨first, rest, rfl, inside⟩ := List.eq_append_cons_of_mem opened
    have clear : .opening ∉ front ++ first := by simp [plain, inside]
    rw [← List.append_assoc, layered_append_opening clear] at layered
    exact (layered_append_opening inside rest).mpr ⟨layered.1.of_append, layered.2⟩
  · have clear : .opening ∉ front ++ below := by simp [plain, opened]
    exact (layered_iff_of_plain opened).mpr ((layered_iff_of_plain clear).mp layered).of_append

theorem sign (s : Sign) (layered : Layered stack) : Layered (.sign s :: stack) := by
  obtain ⟨first, below, rfl, here, swap⟩ := layered.top
  exact swap _ (here.sign s)

theorem opening (layered : Layered stack) : Layered (.opening :: stack) :=
  (layered_append_opening (List.not_mem_nil) stack).mpr ⟨.nil, layered⟩

theorem operation {o : Operation} (loose : ∀ top ∈ stack.head?, top.rank < o.rank)
    (layered : Layered stack) : Layered (.operation o :: stack) := by
  obtain ⟨first, below, rfl, here, swap⟩ := layered.top
  refine swap _ (here.operation ?_)
  intro token head
  exact loose token (List.mem_head?_append_of_mem_head? head)

end Layered

theorem Yard.layered_step {yard next : Yard} {t : Token} (layered : Layered yard.stack)
    (h : yard.step t = .ok next) : Layered next.stack := by
  cases moves_of_step h with
  | operand operand free stays =>
    refine layered.of_append fun mem => ?_
    simpa [Token.isSign] using free _ mem
  | @operation o _ _ _ tight loose =>
    refine (layered.of_append fun mem => ?_).operation loose
    have bound : o.rank ≤ 0 := tight _ mem
    exact absurd bound (Nat.not_le_of_lt o.rank_bounds.1)
  | @wait t _ _ waits =>
    rcases waits with sign | rfl
    · cases t with
      | sign s => exact layered.sign s
      | _ => contradiction
    · exact layered.opening
  | close inside => exact ((layered_append_opening (fun mem => inside _ mem rfl) _).mp layered).2

namespace Yard
variable {yard next : Yard}

theorem opened_step {t : Token} (h : yard.step t = .ok next) :
    yard.stack.count .opening + [t].count .opening = [t].count .closing + next.stack.count .opening := by
  have tracked := count_opening_step h
  cases t with
  | opening => simpa [track] using tracked.symm
  | closing =>
    have some : 0 < yard.stack.count .opening := List.count_pos_iff.mpr (opening_mem_of_step h rfl)
    have fewer : next.stack.count .opening = yard.stack.count .opening - 1 := tracked
    have none : [Token.closing].count .opening = 0 := rfl
    have one : [Token.closing].count .closing = 1 := rfl
    omega
  | _ => simpa [track] using tracked.symm

theorem step_operand {t : Token} (operand : t.isOperand = true) (yard : Yard) :
    ∃ freed kept, yard.stack = freed ++ kept ∧ .opening ∉ freed ∧
      yard.step t = .ok ⟨kept, freed.reverse ++ t :: yard.placed⟩ := by
  obtain ⟨next, moves⟩ := moves_operand operand yard
  have moved := step_of_moves moves
  cases moves with
  | @operand _ signs below _ _ free stays =>
    refine ⟨signs, below, rfl, ?_, moved⟩
    intro mem
    simpa [Token.isSign] using free _ mem
  | operation => contradiction
  | wait waits => cases t <;> simp_all [Token.isOperand, Token.isSign]
  | close => contradiction

theorem step_operation (o : Operation) (yard : Yard) :
    ∃ freed kept, yard.stack = freed ++ kept ∧ .opening ∉ freed ∧
      yard.step (.operation o) = .ok ⟨.operation o :: kept, freed.reverse ++ yard.placed⟩ := by
  obtain ⟨next, moves⟩ : ∃ next, Moves (.operation o) yard next := exists_moves nofun
  have moved := step_of_moves moves
  cases moves with
  | operand => contradiction
  | @operation _ waiting below _ tight loose =>
    refine ⟨waiting, below, rfl, ?_, moved⟩
    intro mem
    have bound : o.rank ≤ 0 := tight _ mem
    exact absurd bound (Nat.not_le_of_lt o.rank_bounds.1)
  | wait waits => simp [Token.isSign] at waits

end Yard

namespace Postfix

/-- The points that a conversion of a source comes by: the tokens that it has pulled, its yard, and the items
    that are still to come. -/
inductive Passes (items : List (Except Fault Token)) :
    List Token → Yard → List (Except Fault Token) → Prop where
  | start : Passes items [] .empty items
  | pull {pulled : List Token} {yard next : Yard} {t : Token} {rest : List (Except Fault Token)}
      (before : Passes items pulled yard (.ok t :: rest)) (moved : yard.step t = .ok next) :
      Passes items (pulled ++ [t]) next rest

namespace Passes
variable {items rest : List (Except Fault Token)} {pulled ts : List Token} {yard last : Yard}

theorem ofItems_eq (passes : Passes items pulled yard rest) : ofItems items = yard.convert rest := by
  induction passes with
  | start => rfl
  | pull before moved ih => rw [ih, Yard.convert, moved]

theorem steps (passes : Passes items pulled yard (ts.map .ok ++ rest)) (run : yard.steps ts = .ok last) :
    Passes items (pulled ++ ts) last rest := by
  induction ts generalizing pulled yard with
  | nil =>
    cases run
    rwa [List.append_nil]
  | cons t ts ih =>
    obtain ⟨next, moved, later⟩ := Yard.steps_cons_eq_ok run
    rw [List.append_cons]
    exact ih (passes.pull moved) later

theorem waiting (passes : Passes items pulled yard rest) : ∀ x ∈ yard.stack, x.endsOperand = false := by
  induction passes with
  | start => simp [Yard.empty]
  | pull before moved ih => exact Yard.waiting_step ih moved

theorem opened (passes : Passes items pulled yard rest) :
    pulled.count .opening = pulled.count .closing + yard.stack.count .opening := by
  induction passes with
  | start => rfl
  | pull before moved ih =>
    have kept := Yard.opened_step moved
    rw [List.count_append, List.count_append]
    omega

theorem layered (passes : Passes items pulled yard rest) : Layered yard.stack := by
  induction passes with
  | start => exact (layered_iff_of_plain List.not_mem_nil).mpr .nil
  | pull before moved ih => exact Yard.layered_step ih moved

end Passes

/-- At every point of the conversion of any source, operands and closing parentheses have left the stack, on
    which there is an opening one for each that has not been closed, and between these the stack lies in
    stretches. An operand or an operation that comes next is taken, and frees no parenthesis. -/
theorem stack_at_every_point {items rest : List (Except Fault Token)} {pulled : List Token} {yard : Yard}
    (passes : Passes items pulled yard rest) :
    ofItems items = yard.convert rest ∧
    (∀ x ∈ yard.stack, x.isOperand = false ∧ x ≠ .closing) ∧
    pulled.count .opening = pulled.count .closing + yard.stack.count .opening ∧
    (∀ stretch ∈ Yard.stretches yard.stack, Stretch stretch) ∧
    (∀ t, t.isOperand = true → ∃ freed kept, yard.stack = freed ++ kept ∧ .opening ∉ freed ∧
      yard.step t = .ok ⟨kept, freed.reverse ++ t :: yard.placed⟩) ∧
    ∀ o, ∃ freed kept, yard.stack = freed ++ kept ∧ .opening ∉ freed ∧
      yard.step (.operation o) = .ok ⟨.operation o :: kept, freed.reverse ++ yard.placed⟩ := by
  refine ⟨passes.ofItems_eq, ?_, passes.opened, passes.layered, fun t operand => yard.step_operand operand,
    fun o => yard.step_operation o⟩
  intro x mem
  have waits := passes.waiting x mem
  rw [Token.endsOperand_eq, Bool.or_eq_false_iff, decide_eq_false_iff_not] at waits
  exact waits

theorem stack_at_every_point_out_of_order :
    let pulled : List Token := [.number 1, .sign .plus, .operation .add, .operation .multiply, .sign .minus,
      .sign .plus, .opening, .opening, .closing, .number 2, .operation .divide, .operation .subtract]
    ∃ yard : Yard, Passes (pulled.map .ok ++ [.error .divisionByZero]) pulled yard [.error .divisionByZero] ∧
      Yard.stretches yard.stack = [[.operation .subtract],
        [.sign .plus, .sign .minus, .operation .multiply, .operation .add]] ∧
      (∀ stretch ∈ Yard.stretches yard.stack, Stretch stretch) ∧
      yard.stack.count .opening = 1 := by
  intro pulled
  have run : Yard.empty.steps pulled = .ok _ := rfl
  have passes : Passes (pulled.map .ok ++ [.error .divisionByZero]) pulled _ [.error .divisionByZero] :=
    Passes.start.steps run
  obtain ⟨_, _, _, stretches, _⟩ := stack_at_every_point passes
  exact ⟨_, passes, rfl, stretches, rfl⟩

end Postfix
end LineCalculator

import Mathlib.Data.List.Pairwise
import LineCalculator.Proofs.Expression.Openings

/- The order that a conversion puts the tokens of a source into, whatever tokens these are. Equal tokens are
   told apart by their places in the source, which the yard does not see. -/
namespace LineCalculator

/-- An order of the tokens of a source, each with its place there. Nothing but the parentheses is left out,
    the operands stand as they did, and every operation and sign stands behind all operands that came
    before it. -/
structure Arranges (tokens : List Token) (order : List (Token × Nat)) : Prop where
  complete : order.Perm (tokens.zipIdx.filter fun x => !x.1.isParenthesis)
  operands : order.filter (·.1.isOperand) = tokens.zipIdx.filter (·.1.isOperand)
  behind : ∀ front x back, order = front ++ x :: back → x.1.isOperand = false →
    ∀ y ∈ tokens.zipIdx, y.1.isOperand = true → y.2 < x.2 → y ∈ front

theorem Token.isParenthesis_of_isOperand {t : Token} (operand : t.isOperand = true) :
    t.isParenthesis = false := by
  cases t <;> simp_all [isOperand, isParenthesis]

theorem Token.of_waiting {t : Token} (waits : t.endsOperand = false) (inside : t ≠ .opening) :
    t.isParenthesis = false ∧ t.isOperand ≠ true := by
  cases t <;> simp_all [endsOperand, isOperand, isParenthesis]

/-- A yard that has read the tokens holds each of them but some parentheses, with its place in what was read.
    Nothing is placed in front of an operand but what was read before it. -/
structure Traces (read : List Token) (yard : Yard) (placed stack : List (Token × Nat)) : Prop where
  placed_eq : placed.map Prod.fst = yard.placed
  stack_eq : stack.map Prod.fst = yard.stack
  early : ∀ x ∈ placed ++ stack, x.2 < read.length
  kept : ∀ x, x.1.isParenthesis = false → (placed ++ stack).count x = read.zipIdx.count x
  plain : ∀ x ∈ placed, x.1.isParenthesis = false
  waiting : ∀ x ∈ stack, x.1.endsOperand = false
  led : placed.Pairwise fun later earlier => later.1.isOperand = true → earlier.2 < later.2

namespace Traces
variable {read front below order : List Token} {placed stack : List (Token × Nat)} {t : Token}

theorem count_snoc (read : List Token) (t : Token) (x : Token × Nat) :
    (read ++ [t]).zipIdx.count x = read.zipIdx.count x + [(t, read.length)].count x := by
  simp [List.zipIdx_append]

theorem free (traces : Traces read ⟨front ++ below, order⟩ placed stack) (inside : .opening ∉ front) :
    ∃ placed stack, Traces read ⟨below, front.reverse ++ order⟩ placed stack := by
  obtain ⟨placed_eq, stack_eq, early, kept, plain, waiting, led⟩ := traces
  obtain ⟨freed, left, rfl, rfl, rfl⟩ := List.map_eq_append_iff.mp stack_eq
  have idle : ∀ x ∈ freed.reverse, x.1.isParenthesis = false ∧ x.1.isOperand ≠ true := by
    intro x mem
    have mem := List.mem_reverse.mp mem
    refine Token.of_waiting (waiting x (by simp [mem])) ?_
    intro isOpening
    exact inside (List.mem_map.mpr ⟨x, mem, isOpening⟩)
  refine ⟨freed.reverse ++ placed, left, by simp [placed_eq], rfl, ?_, ?_, ?_, ?_, ?_⟩
  · intro x mem
    refine early x ?_
    simp only [List.mem_append, List.mem_reverse] at mem ⊢
    tauto
  · intro x plain
    rw [← kept x plain]
    simp only [List.count_append, List.count_reverse]
    omega
  · intro x mem
    rcases List.mem_append.mp mem with new | old
    · exact (idle x new).1
    · exact plain x old
  · exact fun x mem => waiting x (by simp [mem])
  · refine List.pairwise_append.mpr ⟨?_, led, ?_⟩
    · exact List.pairwise_of_forall_mem_list fun later mem _ _ operand => absurd operand (idle later mem).2
    · exact fun later mem _ _ operand => absurd operand (idle later mem).2

theorem place (operand : t.isOperand = true) (traces : Traces read ⟨below, order⟩ placed stack) :
    Traces (read ++ [t]) ⟨below, t :: order⟩ ((t, read.length) :: placed) stack := by
  obtain ⟨placed_eq, stack_eq, early, kept, plain, waiting, led⟩ := traces
  refine ⟨by simp [placed_eq], stack_eq, ?_, ?_, ?_, waiting, ?_⟩
  · intro x mem
    rw [List.length_append, List.length_singleton]
    rcases List.mem_cons.mp mem with rfl | old
    · exact Nat.lt_succ_self _
    · exact Nat.lt_succ_of_lt (early x old)
  · intro x plain
    rw [count_snoc, ← kept x plain, List.cons_append, List.count_cons, List.count_singleton]
  · exact List.forall_mem_cons.mpr ⟨Token.isParenthesis_of_isOperand operand, plain⟩
  · exact List.pairwise_cons.mpr ⟨fun earlier mem _ => early earlier (by simp [mem]), led⟩

theorem push (waits : t.endsOperand = false) (traces : Traces read ⟨below, order⟩ placed stack) :
    Traces (read ++ [t]) ⟨t :: below, order⟩ placed ((t, read.length) :: stack) := by
  obtain ⟨placed_eq, stack_eq, early, kept, plain, waiting, led⟩ := traces
  refine ⟨placed_eq, by simp [stack_eq], ?_, ?_, plain, by simpa [waits] using waiting, led⟩
  · intro x mem
    rw [List.length_append, List.length_singleton]
    rcases List.mem_cons.mp (List.perm_middle.subset mem) with rfl | old
    · exact Nat.lt_succ_self _
    · exact Nat.lt_succ_of_lt (early x old)
  · intro x plain
    rw [count_snoc, ← kept x plain, List.perm_middle.count_eq, List.count_cons, List.count_singleton]

theorem close (traces : Traces read ⟨.opening :: below, order⟩ placed stack) :
    ∃ stack, Traces (read ++ [.closing]) ⟨below, order⟩ placed stack := by
  obtain ⟨placed_eq, stack_eq, early, kept, plain, waiting, led⟩ := traces
  obtain ⟨opening, left, rfl, isOpening, rfl⟩ := List.map_eq_cons_iff.mp stack_eq
  refine ⟨left, placed_eq, rfl, ?_, ?_, plain, fun x mem => waiting x (by simp [mem]), led⟩
  · intro x mem
    rw [List.length_append, List.length_singleton]
    exact Nat.lt_succ_of_lt (early x (List.perm_middle.mem_iff.mpr (List.mem_cons_of_mem _ mem)))
  · intro x plain
    have other : opening ≠ x := by
      rintro rfl
      simp [isOpening, Token.isParenthesis] at plain
    have last : (Token.closing, read.length) ≠ x := by
      rintro rfl
      simp [Token.isParenthesis] at plain
    rw [count_snoc, ← kept x plain, List.perm_middle.count_eq]
    simp [other, last]

end Traces

namespace Yard
variable {read ts : List Token} {yard next : Yard} {placed stack : List (Token × Nat)} {t : Token}

theorem traces_step (traces : Traces read yard placed stack) (h : yard.step t = .ok next) :
    ∃ placed stack, Traces (read ++ [t]) next placed stack := by
  cases moves_of_step h with
  | operand operand free stays =>
    refine (traces.place operand).free fun mem => ?_
    simpa [Token.isSign] using free _ mem
  | @operation o _ _ _ tight loose =>
    obtain ⟨placed, stack, freed⟩ := traces.free fun mem => by
      have bound := tight _ mem
      cases o <;> simp [Operation.rank, Token.rank] at bound
    exact ⟨_, _, freed.push rfl⟩
  | wait waits => exact ⟨_, _, traces.push (by cases t <;> simp_all [Token.isSign, Token.endsOperand])⟩
  | close inside =>
    obtain ⟨placed, stack, freed⟩ := traces.free fun mem => inside _ mem rfl
    exact ⟨_, freed.close⟩

theorem traces_of_steps (run : empty.steps ts = .ok next) : ∃ placed stack, Traces ts next placed stack := by
  refine steps_induction (motive := fun read last => ∃ placed stack, Traces read last placed stack) ?_ ?_ run
  · exact ⟨[], [], rfl, rfl, by simp, by simp, by simp, by simp, .nil⟩
  · rintro read middle t last ⟨placed, stack, traces⟩ moved
    exact traces_step traces moved

end Yard

theorem pairwise_zipIdx (tokens : List Token) : tokens.zipIdx.Pairwise fun x y => x.2 < y.2 := by
  have places : (tokens.zipIdx.map Prod.snd).Pairwise (· < ·) := by
    rw [List.zipIdx_map_snd]
    exact List.pairwise_lt_range' 1
  exact List.pairwise_map.mp places

theorem Traces.arranges {read : List Token} {yard : Yard} {placed stack : List (Token × Nat)}
    (traces : Traces read yard placed stack) (closed : .opening ∉ yard.stack) :
    Arranges read (placed.reverse ++ stack) := by
  obtain ⟨placed_eq, stack_eq, early, kept, plain, waiting, led⟩ := traces
  have rest : ∀ x ∈ stack, x.1.isParenthesis = false ∧ x.1.isOperand ≠ true := by
    intro x mem
    refine Token.of_waiting (waiting x mem) ?_
    intro isOpening
    exact closed (stack_eq ▸ List.mem_map.mpr ⟨x, mem, isOpening⟩)
  have ordered : (placed.reverse ++ stack).Pairwise fun x y => y.1.isOperand = true → x.2 < y.2 := by
    refine List.pairwise_append.mpr ⟨List.pairwise_reverse.mpr led, ?_, ?_⟩
    · exact List.pairwise_of_forall_mem_list fun _ _ y mem operand => absurd operand (rest y mem).2
    · exact fun _ _ y mem operand => absurd operand (rest y mem).2
  have complete : (placed.reverse ++ stack).Perm (read.zipIdx.filter fun x => !x.1.isParenthesis) := by
    rw [List.perm_iff_count]
    intro x
    cases kind : x.1.isParenthesis with
    | false =>
      rw [List.count_filter (by simp [kind]), ← kept x kind, List.count_append, List.count_append,
        List.count_reverse]
    | true =>
      have outside : x ∉ placed.reverse ++ stack := by
        intro mem
        rcases List.mem_append.mp mem with mem | mem
        · simp [plain x (List.mem_reverse.mp mem)] at kind
        · simp [(rest x mem).1] at kind
      rw [List.count_eq_zero.mpr outside, List.count_eq_zero.mpr (by simp [kind])]
  refine ⟨complete, ?_, ?_⟩
  · have same := complete.filter fun x => x.1.isOperand
    have operands : (read.zipIdx.filter fun x => !x.1.isParenthesis).filter (·.1.isOperand) =
        read.zipIdx.filter (·.1.isOperand) := by
      rw [List.filter_filter]
      refine List.filter_congr fun x _ => ?_
      cases operand : x.1.isOperand with
      | false => rfl
      | true => simp [Token.isParenthesis_of_isOperand operand]
    rw [operands] at same
    -- Both go up with the places of the operands, and there is one such order only.
    refine same.eq_of_pairwise (fun x y _ _ lt gt => absurd gt (Nat.lt_asymm lt)) ?_
      ((pairwise_zipIdx read).filter _)
    refine (ordered.filter _).imp_of_mem fun _ mem before => before ?_
    exact (List.mem_filter.mp mem).2
  · intro front x back parts _ y mem operand before
    have kept : y ∈ placed.reverse ++ stack :=
      complete.mem_iff.mpr (List.mem_filter.mpr ⟨mem, by simp [Token.isParenthesis_of_isOperand operand]⟩)
    rw [parts] at kept ordered
    rcases List.mem_append.mp kept with inFront | behind
    · exact inFront
    · have later := (List.pairwise_cons.mp (List.pairwise_append.mp ordered).2.1).1
      rcases List.mem_cons.mp behind with rfl | behind
      · exact absurd before (Nat.lt_irrefl _)
      · exact absurd before (Nat.lt_asymm (later y behind operand))

/-- Of a source of any items, in any order: the first item that is a fault, or a closing parenthesis with none
    open, gives the answer, and nothing behind it is pulled. Where there is none all items are pulled. Then
    the answer is a fault exactly if a parenthesis stays open, and else the tokens in an order that has lost
    the parentheses only. -/
theorem Postfix.ofItems_exact (items : List (Except Fault Token)) :
    (∀ before item rest fault, items = before ++ item :: rest → Clear before → Stops before item fault →
      ofItems items = ⟨.error fault, rest⟩) ∧
    (Clear items → (ofItems items).unread = [] ∧
      ((ofItems items).result = .error .invalidExpression ↔ 0 < unclosed items) ∧
      (unclosed items = 0 → ∃ tokens order, items = tokens.map .ok ∧ Arranges tokens order ∧
        (ofItems items).result = .ok (order.map Prod.fst))) := by
  constructor
  · rintro before item rest fault rfl clear stop
    exact ofItems_of_stop clear stop rest
  · intro clear
    obtain ⟨tokens, last, rfl, run⟩ := clear_iff.mp clear
    have waiting := Yard.waiting_of_steps run
    have whole : ofItems (tokens.map .ok) = ⟨last.finish, []⟩ := by
      have pulled := Yard.convert_append_of_ok run []
      rwa [List.append_nil] at pulled
    rw [whole, unclosed_eq_of_steps run]
    refine ⟨rfl, ?_, ?_⟩
    · rw [List.count_pos_iff]
      constructor
      · intro refused
        by_contra closed
        rw [Yard.finish_of_closed waiting closed] at refused
        contradiction
      · exact Yard.finish_of_opening
    · intro none
      have closed : .opening ∉ last.stack := List.count_eq_zero.mp none
      obtain ⟨placed, stack, traces⟩ := Yard.traces_of_steps run
      refine ⟨tokens, placed.reverse ++ stack, rfl, traces.arranges closed, ?_⟩
      rw [Yard.finish_of_closed waiting closed, List.map_append, List.map_reverse, traces.placed_eq,
        traces.stack_eq]

theorem Postfix.ofItems_exact_of_juxtaposed :
    let group : List Token := [.sign .minus, .opening, .operation .add, .number 1, .number 2, .closing]
    ofItems (group.map .ok ++ [.ok .closing, .error .divisionByZero]) =
        ⟨.error .invalidExpression, [.error .divisionByZero]⟩ ∧
      (ofItems (group.map .ok)).unread = [] ∧
      ∃ tokens order, group.map (Except.ok (ε := Fault)) = tokens.map .ok ∧ Arranges tokens order ∧
        (ofItems (group.map .ok)).result = .ok (order.map Prod.fst) := by
  intro group
  have clear : Clear (group.map .ok) := clear_iff.mpr ⟨group, _, rfl, rfl⟩
  obtain ⟨stopped, _⟩ := ofItems_exact (group.map .ok ++ [.ok .closing, .error .divisionByZero])
  obtain ⟨unread, _, placed⟩ := (ofItems_exact (group.map .ok)).2 clear
  exact ⟨stopped _ _ _ _ rfl clear (.unopened rfl), unread, placed rfl⟩

end LineCalculator

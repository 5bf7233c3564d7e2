import LineCalculator.Expression.Postfix
import LineCalculator.Proofs.Fallible

/- What a yard does with one token, said once and for every token: which waiting tokens it frees and
   where the token goes. Whatever holds of a run of the yard follows from this. -/
namespace LineCalculator

def Balanced : Nat → List Token → Prop
  | depth, [] => depth = 0
  | depth, .opening :: ts => Balanced (depth + 1) ts
  | depth, .closing :: ts => ∃ outer, depth = outer + 1 ∧ Balanced outer ts
  | depth, _ :: ts => Balanced depth ts

def track (depth : Nat) : Token → Nat
  | .opening => depth + 1
  | .closing => depth - 1
  | _ => depth

theorem balanced_cons_iff {depth : Nat} {t : Token} {ts : List Token} :
    Balanced depth (t :: ts) ↔ (t = .closing → 0 < depth) ∧ Balanced (track depth t) ts := by
  cases t with
  | closing =>
    constructor
    · rintro ⟨outer, rfl, inside⟩
      exact ⟨fun _ => Nat.succ_pos outer, inside⟩
    · rintro ⟨opened, inside⟩
      exact ⟨depth - 1, (Nat.succ_pred_eq_of_pos (opened rfl)).symm, inside⟩
  | number n => simp [Balanced, track]
  | reference name n => simp [Balanced, track]
  | operation o => simp [Balanced, track]
  | sign s => simp [Balanced, track]
  | opening => simp [Balanced, track]

namespace Yard

def steps (yard : Yard) (tokens : List Token) : Except Fault Yard := tokens.foldlM step yard

@[simp] theorem steps_nil (yard : Yard) : yard.steps [] = .ok yard := rfl

theorem steps_cons_of_ok {yard next : Yard} {t : Token} (h : yard.step t = .ok next)
    (rest : List Token) : yard.steps (t :: rest) = next.steps rest := by
  simp only [steps, List.foldlM_cons, h]
  rfl

theorem steps_append_of_ok {yard next : Yard} {first : List Token} (h : yard.steps first = .ok next)
    (rest : List Token) : yard.steps (first ++ rest) = next.steps rest := by
  simp only [steps] at h
  simp only [steps, List.foldlM_append, h]
  rfl

theorem convert_tokens (yard : Yard) (tokens : List Token) :
    (yard.convert (tokens.map .ok)).result = yard.steps tokens >>= finish := by
  induction tokens generalizing yard with
  | nil => rfl
  | cons t rest ih =>
    simp only [List.map_cons, convert]
    cases h : yard.step t with
    | error fault => simp [steps, h, bind, Except.bind]
    | ok next => rw [steps_cons_of_ok h]; exact ih next

theorem steps_cons_eq_ok {yard last : Yard} {t : Token} {ts : List Token}
    (h : yard.steps (t :: ts) = .ok last) : ∃ next, yard.step t = .ok next ∧ next.steps ts = .ok last := by
  cases moved : yard.step t with
  | error fault => simp [steps, moved, bind, Except.bind] at h
  | ok next => exact ⟨next, rfl, by rwa [steps_cons_of_ok moved] at h⟩

theorem convert_eq_ok {yard : Yard} {items : List (Except Fault Token)} {out : List Token}
    (h : (yard.convert items).result = .ok out) :
    ∃ ts, items = ts.map .ok ∧ (yard.steps ts >>= finish) = .ok out := by
  induction items generalizing yard with
  | nil => exact ⟨[], rfl, h⟩
  | cons item rest ih =>
    cases item with
    | error fault => simp [convert] at h
    | ok t =>
      cases moved : yard.step t with
      | error fault => simp [convert, moved] at h
      | ok next =>
        obtain ⟨ts, same, run⟩ := ih (by simpa [convert, moved] using h)
        refine ⟨t :: ts, by rw [same, List.map_cons], ?_⟩
        rw [steps_cons_of_ok moved]
        exact run

theorem release_waiting (leaves : Token → Bool) {waiting : List Token} (below placed : List Token)
    (all : ∀ x ∈ waiting, leaves x = true) (stays : ∀ top ∈ below.head?, leaves top = false) :
    release leaves ⟨waiting ++ below, placed⟩ = ⟨below, waiting.reverse ++ placed⟩ := by
  have none : below.takeWhile leaves = [] ∧ below.dropWhile leaves = below := by
    cases below with
    | nil => simp
    | cons top rest => simp [stays top (by simp)]
  simp [release, List.takeWhile_append_of_pos all, List.dropWhile_append_of_pos all, none]

theorem stack_parts (leaves : Token → Bool) (stack : List Token) :
    ∃ waiting below, stack = waiting ++ below ∧ (∀ x ∈ waiting, leaves x = true) ∧
      ∀ top ∈ below.head?, leaves top = false := by
  refine ⟨stack.takeWhile leaves, stack.dropWhile leaves, List.takeWhile_append_dropWhile.symm, ?_, ?_⟩
  · exact List.all_eq_true.mp (List.all_takeWhile ..)
  · intro top mem
    have stays := List.head?_dropWhile_not leaves stack
    rw [Option.mem_def.mp mem] at stays
    exact stays

/-- What a token does to a yard. A closing parenthesis frees its group up to the opening one. -/
inductive Moves : Token → Yard → Yard → Prop where
  | operand {t : Token} {signs below placed : List Token} (operand : t.isOperand = true)
      (free : ∀ x ∈ signs, x.isSign = true) (stays : ∀ top ∈ below.head?, top.isSign = false) :
      Moves t ⟨signs ++ below, placed⟩ ⟨below, signs.reverse ++ t :: placed⟩
  | operation {o : Operation} {waiting below placed : List Token}
      (tight : ∀ x ∈ waiting, o.rank ≤ x.rank) (loose : ∀ top ∈ below.head?, top.rank < o.rank) :
      Moves (.operation o) ⟨waiting ++ below, placed⟩
        ⟨.operation o :: below, waiting.reverse ++ placed⟩
  | wait {t : Token} {stack placed : List Token} (waits : t.isSign = true ∨ t = .opening) :
      Moves t ⟨stack, placed⟩ ⟨t :: stack, placed⟩
  | close {group below placed : List Token} (inside : ∀ x ∈ group, x ≠ .opening) :
      Moves .closing ⟨group ++ .opening :: below, placed⟩ ⟨below, group.reverse ++ placed⟩

theorem step_of_moves {t : Token} {yard next : Yard} (h : Moves t yard next) :
    yard.step t = .ok next := by
  cases h with
  | @operand _ signs below placed operand free stays =>
    have released := release_waiting Token.isSign below (t :: placed) free stays
    cases t <;> simp_all [Token.isOperand, step, place]
  | @operation o waiting below placed tight loose =>
    have released := release_waiting (fun top => o.rank ≤ top.rank) below placed
      (by simpa using tight) (by simpa using loose)
    simp [step, released, push]
  | wait waits => cases t <;> simp_all [Token.isSign, step, push]
  | @close group below placed inside =>
    have released := release_waiting (· ≠ .opening) (.opening :: below) placed
      (by simpa using inside) (by simp)
    simp only [step, released]

theorem moves_operand {t : Token} (operand : t.isOperand = true) (yard : Yard) :
    ∃ next, Moves t yard next := by
  obtain ⟨stack, placed⟩ := yard
  obtain ⟨signs, below, rfl, free, stays⟩ := stack_parts Token.isSign stack
  exact ⟨_, .operand operand free stays⟩

theorem exists_moves {t : Token} {yard : Yard} (opened : t = .closing → .opening ∈ yard.stack) :
    ∃ next, Moves t yard next := by
  cases t with
  | number n => exact moves_operand rfl yard
  | reference name n => exact moves_operand rfl yard
  | operation o =>
    obtain ⟨stack, placed⟩ := yard
    obtain ⟨waiting, below, rfl, tight, loose⟩ := stack_parts (fun top => o.rank ≤ top.rank) stack
    exact ⟨_, .operation (by simpa using tight) (by simpa using loose)⟩
  | sign s => exact ⟨_, .wait (Or.inl rfl)⟩
  | opening => exact ⟨_, .wait (Or.inr rfl)⟩
  | closing =>
    obtain ⟨stack, placed⟩ := yard
    obtain ⟨group, below, rfl, inside, stays⟩ := stack_parts (· ≠ .opening) stack
    have plain : ∀ x ∈ group, x ≠ .opening := by simpa using inside
    rcases List.mem_append.mp (opened rfl) with mem | mem
    · exact absurd rfl (plain _ mem)
    · obtain ⟨top, below, rfl⟩ := List.exists_cons_of_ne_nil (List.ne_nil_of_mem mem)
      have isOpening : top = .opening := by simpa using stays top (by simp)
      rw [isOpening]
      exact ⟨_, .close plain⟩

theorem step_closing_of_none {yard : Yard} (none : .opening ∉ yard.stack) :
    yard.step .closing = .error .invalidExpression := by
  have all : ∀ x ∈ yard.stack, x ≠ .opening := by
    rintro x mem rfl
    exact none mem
  have released : release (· ≠ .opening) ⟨yard.stack ++ [], yard.placed⟩ = _ :=
    release_waiting (· ≠ .opening) [] yard.placed (by simpa using all) (by simp)
  rw [List.append_nil] at released
  simp only [step, released]

theorem opening_mem_of_step {t : Token} {yard next : Yard} (h : yard.step t = .ok next) :
    t = .closing → .opening ∈ yard.stack := by
  rintro rfl
  by_cases mem : .opening ∈ yard.stack
  · exact mem
  · rw [step_closing_of_none mem] at h
    contradiction

theorem moves_of_step {t : Token} {yard next : Yard} (h : yard.step t = .ok next) :
    Moves t yard next := by
  obtain ⟨other, moves⟩ := exists_moves (opening_mem_of_step h)
  have determined : other = next := Except.ok.inj ((step_of_moves moves).symm.trans h)
  rwa [← determined]

theorem steps_induction {motive : List Token → Yard → Prop} {yard last : Yard} {ts : List Token}
    (start : motive [] yard)
    (step : ∀ {read middle t next}, motive read middle → step middle t = .ok next →
      motive (read ++ [t]) next)
    (run : yard.steps ts = .ok last) : motive ts last := by
  -- The induction is on the tokens still to come, so those already read are left free.
  have behind : ∀ read, motive read yard → motive (read ++ ts) last := by
    clear start
    induction ts generalizing yard with
    | nil =>
      intro read here
      cases run
      rwa [List.append_nil]
    | cons t ts ih =>
      intro read here
      obtain ⟨middle, moved, later⟩ := steps_cons_eq_ok run
      rw [List.append_cons]
      exact ih later _ (step here moved)
  exact behind [] start

def tally (kind : Token → Bool) (yard : Yard) : Nat :=
  yard.placed.countP kind + yard.stack.countP kind

variable {yard next : Yard} {kind : Token → Bool}

theorem tally_step (noOpening : kind .opening = false) (noClosing : kind .closing = false)
    {t : Token} (h : yard.step t = .ok next) :
    next.tally kind = yard.tally kind + [t].countP kind := by
  cases moves_of_step h <;>
    simp only [tally, List.countP_append, List.countP_reverse, List.countP_cons, List.countP_nil,
      noOpening, noClosing, Bool.false_eq_true, if_false] <;> omega

theorem tally_steps (noOpening : kind .opening = false) (noClosing : kind .closing = false)
    {ts : List Token} (run : yard.steps ts = .ok next) :
    next.tally kind = yard.tally kind + ts.countP kind := by
  refine steps_induction (motive := fun read last => last.tally kind = yard.tally kind + read.countP kind)
    rfl ?_ run
  intro read middle t last here moved
  rw [tally_step noOpening noClosing moved, here, List.countP_append, Nat.add_assoc]

theorem finish_eq_ok {out : List Token} (h : yard.finish = .ok out) :
    .opening ∉ yard.stack ∧ out = yard.placed.reverse ++ yard.stack := by
  unfold finish at h
  split at h
  · simp at h
  · next none =>
    constructor
    · intro mem
      exact none (List.any_eq_true.mpr ⟨.opening, mem, rfl⟩)
    · exact (Except.ok.inj h).symm

theorem count_opening_of_all (leaves : Token → Bool) {waiting : List Token}
    (all : ∀ x ∈ waiting, leaves x = true) (stays : leaves .opening = false) :
    waiting.count .opening = 0 := by
  rw [List.count_eq_zero]
  intro mem
  have := all .opening mem
  simp [stays] at this

theorem count_opening_step {t : Token} (h : yard.step t = .ok next) :
    next.stack.count .opening = track (yard.stack.count .opening) t := by
  cases moves_of_step h with
  | @operand _ signs below placed operand free stays =>
    have none := count_opening_of_all Token.isSign free rfl
    cases t <;> simp_all [Token.isOperand, track]
  | @operation o waiting below placed tight loose =>
    have none : waiting.count .opening = 0 :=
      count_opening_of_all (fun x => o.rank ≤ x.rank) (by simpa using tight) (by cases o <;> rfl)
    simp [track, none]
  | wait waits => cases t <;> simp_all [Token.isSign, track]
  | @close group below placed inside =>
    have none : group.count .opening = 0 := List.count_eq_zero.mpr fun mem => inside _ mem rfl
    simp [track, none]

theorem balanced_steps {ts : List Token} (h : yard.steps ts = .ok next)
    (closed : .opening ∉ next.stack) : Balanced (yard.stack.count .opening) ts := by
  induction ts generalizing yard with
  | nil =>
    cases h
    exact List.count_eq_zero.mpr closed
  | cons t ts ih =>
    obtain ⟨middle, moved, rest⟩ := steps_cons_eq_ok h
    rw [balanced_cons_iff, ← count_opening_step moved]
    exact ⟨fun closes => List.count_pos_iff.mpr (opening_mem_of_step moved closes), ih rest⟩

end Yard

namespace Postfix
variable {ts out : List Token} {last : Yard}

theorem ofTokens_of_steps (run : Yard.empty.steps ts = .ok last) : ofTokens ts = last.finish := by
  have whole : ofTokens ts = Yard.empty.steps ts >>= Yard.finish := Yard.convert_tokens _ _
  rw [whole, run]
  rfl

theorem steps_of_ofTokens (converted : ofTokens ts = .ok out) :
    ∃ last, Yard.empty.steps ts = .ok last ∧ last.finish = .ok out := by
  have whole : (Yard.empty.steps ts >>= Yard.finish) = .ok out := by
    rw [← Yard.convert_tokens]
    exact converted
  exact Except.bind_eq_ok_iff.mp whole

end Postfix
end LineCalculator

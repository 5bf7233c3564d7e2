import LineCalculator.Expression.Evaluator
import LineCalculator.Proofs.Expression.Counting
import LineCalculator.Proofs.Expression.Faults
import LineCalculator.Proofs.Expression.Meaning
import LineCalculator.Proofs.Expression.Rebuilding

/- What an evaluator answers to any list of tokens, whatever it was used for before. The stack of integers
   is followed beside a stack of the trees that they are the values of. -/
namespace LineCalculator

namespace Tree

theorem value_eq_ok_iff {t : Tree} {v : Int} : t.value = .ok v ↔ ¬ t.DividesByZero ∧ t.integer = v := by
  rcases t.value_cases with ⟨fine, worth⟩ | ⟨zero, worth⟩
  · simp [fine, worth]
  · simp [zero, worth]

theorem postorders_of_grow {stack grown : List Tree} {token : Token} (h : grow stack token = some grown) :
    grown.reverse.flatMap postorder = stack.reverse.flatMap postorder ++ [token] := by
  unfold grow at h
  split at h
  · cases h
    simp [postorder]
  · cases h
    simp [postorder]
  · cases h
    simp [postorder]
  · cases h
    simp [postorder]
  · contradiction

theorem postorders_of_growAll {stack grown : List Tree} {tokens : List Token}
    (h : tokens.foldlM grow stack = some grown) :
    grown.reverse.flatMap postorder = stack.reverse.flatMap postorder ++ tokens := by
  induction tokens generalizing stack with
  | nil =>
    cases h
    simp
  | cons token rest ih =>
    rw [List.foldlM_cons] at h
    obtain ⟨next, first, later⟩ := Option.bind_eq_some_iff.mp h
    rw [ih later, postorders_of_grow first, List.append_assoc, List.singleton_append]

end Tree

namespace Postfix

def Worth (trees : List Tree) (stack : List Int) : Prop := trees.map Tree.value = stack.map .ok

variable {trees : List Tree} {stack : List Int}

theorem Worth.fine_of_mem (worth : Worth trees stack) {t : Tree} (mem : t ∈ trees) :
    ¬ t.DividesByZero := by
  have held : t.value ∈ stack.map Except.ok := by
    rw [← worth]
    exact List.mem_map_of_mem mem
  obtain ⟨v, _, same⟩ := List.mem_map.mp held
  exact (Tree.value_eq_ok_iff.mp same.symm).1

theorem Worth.cons_iff {t : Tree} {n : Int} :
    Worth (t :: trees) (n :: stack) ↔ t.value = .ok n ∧ Worth trees stack := by
  simp [Worth]

theorem Worth.exists_cons {n : Int} (worth : Worth trees (n :: stack)) :
    ∃ t below, trees = t :: below ∧ t.value = .ok n ∧ Worth below stack := by
  obtain ⟨t, below, rfl, first, others⟩ := List.map_eq_cons_iff.mp worth
  exact ⟨t, below, rfl, first, others⟩

theorem push_of_worth (worth : Worth trees stack) (token : Token) :
    (∃ grown next, Tree.grow trees token = some grown ∧ push stack token = .ok next ∧ Worth grown next) ∨
    (token = .operation .divide ∧ (∃ zero left below, trees = zero :: left :: below ∧ zero.integer = 0) ∧
      push stack token = .error .divisionByZero) ∨
    push stack token = .error .invalidExpression := by
  cases token with
  | number n => exact .inl ⟨_, _, rfl, rfl, Worth.cons_iff.mpr ⟨rfl, worth⟩⟩
  | reference name n => exact .inl ⟨_, _, rfl, rfl, Worth.cons_iff.mpr ⟨rfl, worth⟩⟩
  | sign s =>
    cases stack with
    | nil => exact .inr (.inr rfl)
    | cons n below =>
      obtain ⟨t, others, rfl, first, rest⟩ := worth.exists_cons
      refine .inl ⟨_, _, rfl, rfl, Worth.cons_iff.mpr ⟨?_, rest⟩⟩
      simp [Tree.value, first, Except.map]
  | operation o =>
    cases stack with
    | nil => exact .inr (.inr rfl)
    | cons n below =>
      cases below with
      | nil => exact .inr (.inr rfl)
      | cons m below =>
        obtain ⟨r, others, rfl, right, worth⟩ := worth.exists_cons
        obtain ⟨l, others, rfl, left, worth⟩ := worth.exists_cons
        have whole : (Tree.operation o l r).value = o.apply m n := by
          simp [Tree.value, left, right, bind, Except.bind]
        cases applied : o.apply m n with
        | ok v =>
          refine .inl ⟨_, v :: below, rfl, ?_, Worth.cons_iff.mpr ⟨whole.trans applied, worth⟩⟩
          simp [push, applied, Except.map]
        | error fault =>
          obtain ⟨rfl, rfl, rfl⟩ := (Operation.apply_eq_error_iff ..).mp applied
          refine .inr (.inl ⟨rfl, ⟨r, l, others, rfl, (Tree.value_eq_ok_iff.mp right).2⟩, ?_⟩)
          simp [push, applied, Except.map]
  | opening => exact .inr (.inr rfl)
  | closing => exact .inr (.inr rfl)

/-- The tokens begin with the postorders of two trees or more, all of them with a value and the last of
    them zero, and a division behind them. -/
def DividesByZero (tokens : List Token) : Prop :=
  ∃ trees : List Tree, 2 ≤ trees.length ∧ (∀ t ∈ trees, ¬ t.DividesByZero) ∧
    (∃ last ∈ trees.getLast?, last.integer = 0) ∧
    trees.flatMap Tree.postorder ++ [.operation .divide] <+: tokens

theorem pushAll_of_worth (worth : Worth trees stack) (tokens : List Token) :
    (∃ grown last, tokens.foldlM Tree.grow trees = some grown ∧ tokens.foldlM push stack = .ok last ∧
      Worth grown last) ∨
    ((∃ front rest zero left below, tokens = front ++ .operation .divide :: rest ∧
        front.foldlM Tree.grow trees = some (zero :: left :: below) ∧
        (∀ t ∈ zero :: left :: below, ¬ t.DividesByZero) ∧ zero.integer = 0) ∧
      tokens.foldlM push stack = .error .divisionByZero) ∨
    tokens.foldlM push stack = .error .invalidExpression := by
  induction tokens generalizing trees stack with
  | nil => exact .inl ⟨trees, stack, rfl, rfl, worth⟩
  | cons token rest ih =>
    rw [List.foldlM_cons, List.foldlM_cons]
    rcases push_of_worth worth token with ⟨grown, next, tree, moved, later⟩ | ⟨rfl, zero, failed⟩ | refused
    · rw [tree, moved]
      rcases ih later with whole | ⟨⟨front, back, zero, left, below, rfl, more, fine, none⟩, failed⟩ | refused
      · exact .inl whole
      · refine .inr (.inl ⟨⟨token :: front, back, zero, left, below, rfl, ?_, fine, none⟩, failed⟩)
        rw [List.foldlM_cons, tree]
        exact more
      · exact .inr (.inr refused)
    · obtain ⟨zero, left, below, rfl, none⟩ := zero
      rw [failed]
      exact .inr (.inl ⟨⟨[], rest, zero, left, below, rfl, rfl, fun t => worth.fine_of_mem, none⟩, rfl⟩)
    · rw [refused]
      exact .inr (.inr rfl)

theorem pushAll_postorders {trees : List Tree} (fine : ∀ t ∈ trees, ¬ t.DividesByZero) (stack : List Int) :
    (trees.flatMap Tree.postorder).foldlM push stack =
      .ok ((trees.map Tree.integer).reverse ++ stack) := by
  induction trees generalizing stack with
  | nil => rfl
  | cons t trees ih =>
    have worth : t.value = .ok t.integer := Tree.value_eq_ok_iff.mpr ⟨fine t (by simp), rfl⟩
    have first : t.postorder.foldlM push stack = .ok (t.integer :: stack) := by
      rw [Tree.foldlM_push_postorder, worth]
      rfl
    rw [List.flatMap_cons, List.foldlM_append, first]
    change (trees.flatMap Tree.postorder).foldlM push (t.integer :: stack) = _
    rw [ih fun u mem => fine u (by simp [mem])]
    simp

theorem value_eq_ok_iff {tokens : List Token} {v : Int} :
    value tokens = .ok v ↔ ∃ t : Tree, t.postorder = tokens ∧ t.value = .ok v := by
  constructor
  · intro h
    obtain ⟨last, run, only⟩ := Except.bind_eq_ok_iff.mp h
    obtain rfl := single_eq_ok only
    have start : Worth [] [] := rfl
    rcases pushAll_of_worth start tokens with ⟨grown, all, trees, same, worth⟩ | ⟨_, failed⟩ | failed
    · obtain rfl : all = [v] := Except.ok.inj (same.symm.trans run)
      obtain ⟨t, none, rfl, first, rest⟩ := worth.exists_cons
      obtain rfl : none = [] := List.map_eq_nil_iff.mp rest
      exact ⟨t, by simpa using Tree.postorders_of_growAll trees, first⟩
    · rw [run] at failed
      contradiction
    · rw [run] at failed
      contradiction
  · rintro ⟨t, rfl, worth⟩
    rw [Tree.value_postorder, worth]

theorem value_eq_divisionByZero_iff {tokens : List Token} :
    value tokens = .error .divisionByZero ↔ DividesByZero tokens := by
  constructor
  · intro h
    have start : Worth [] [] := rfl
    rcases Except.bind_eq_error_iff.mp h with run | ⟨last, _, alone⟩
    · rcases pushAll_of_worth start tokens with ⟨_, _, _, same, _⟩ | ⟨⟨front, rest, zero, left, below, rfl,
        trees, fine, none⟩, _⟩ | refused
      · rw [same] at run
        contradiction
      · have order := Tree.postorders_of_growAll trees
        refine ⟨(zero :: left :: below).reverse, by simp, ?_, by simpa using none, rest, ?_⟩
        · intro t mem
          exact fine t (List.mem_reverse.mp mem)
        · rw [order, List.append_assoc]
          rfl
      · rw [refused] at run
        contradiction
    · unfold single at alone
      split at alone <;> contradiction
  · rintro ⟨trees, two, fine, ⟨zero, last, none⟩, rest, rfl⟩
    obtain ⟨others, rfl⟩ := List.getLast?_eq_some_iff.mp last
    have some : (others.map Tree.integer).reverse ≠ [] := by
      intro empty
      simp_all
    obtain ⟨left, below, stack⟩ := List.exists_cons_of_ne_nil some
    have failed : ((others ++ [zero]).flatMap Tree.postorder ++ .operation .divide :: rest).foldlM push [] =
        .error .divisionByZero := by
      rw [List.foldlM_append, pushAll_postorders fine]
      simp [stack, none, push, Operation.apply, bind, Except.bind, Except.map]
    rw [value, List.append_assoc, List.singleton_append, failed]
    rfl

end Postfix

namespace Evaluator
variable {stack next : List Int} {token : Token} {tokens : List Token} {fault : Fault} {e after : Evaluator}

theorem run_bind_of_ok {α β : Type} {x : Step α} {a : α} (h : x.run e = .ok a after) (f : α → Step β) :
    (x >>= f).run e = (f a).run after := by
  change EStateM.bind x f e = f a after
  rw [EStateM.bind, show x e = .ok a after from h]

theorem run_bind_of_error {α β : Type} {x : Step α} (h : x.run e = .error fault after) (f : α → Step β) :
    (x >>= f).run e = .error fault after := by
  change EStateM.bind x f e = .error fault after
  rw [EStateM.bind, show x e = .error fault after from h]

theorem accept_of_push_ok (h : Postfix.push stack token = .ok next) :
    (accept token).run ⟨stack⟩ = .ok () ⟨next⟩ := by
  cases token with
  | number n =>
    cases h
    rfl
  | reference name n =>
    cases h
    rfl
  | sign s =>
    cases stack with
    | nil => contradiction
    | cons operand below =>
      cases h
      rfl
  | operation o =>
    match stack with
    | [] => contradiction
    | [_] => contradiction
    | right :: left :: below =>
      obtain ⟨n, applied, rfl⟩ := Except.map_eq_ok_iff.mp h
      change (ofExcept (o.apply left right) >>= push).run ⟨below⟩ = _
      rw [applied]
      rfl
  | opening => contradiction
  | closing => contradiction

theorem accept_of_push_error (h : Postfix.push stack token = .error fault) :
    ∃ after, (accept token).run ⟨stack⟩ = .error fault after := by
  cases token with
  | number n => contradiction
  | reference name n => contradiction
  | sign s =>
    cases stack with
    | nil =>
      cases h
      exact ⟨_, rfl⟩
    | cons operand below => contradiction
  | operation o =>
    match stack with
    | [] =>
      cases h
      exact ⟨_, rfl⟩
    | [_] =>
      cases h
      exact ⟨_, rfl⟩
    | right :: left :: below =>
      have failed : o.apply left right = .error fault := Except.map_eq_error_iff.mp h
      refine ⟨⟨below⟩, ?_⟩
      change (ofExcept (o.apply left right) >>= push).run ⟨below⟩ = _
      rw [failed]
      rfl
  | opening =>
    cases h
    exact ⟨_, rfl⟩
  | closing =>
    cases h
    exact ⟨_, rfl⟩

theorem acceptAll_of_pushAll_ok (h : tokens.foldlM Postfix.push stack = .ok next) :
    (tokens.forM accept).run ⟨stack⟩ = .ok () ⟨next⟩ := by
  induction tokens generalizing stack with
  | nil =>
    cases h
    rfl
  | cons token rest ih =>
    rw [List.foldlM_cons] at h
    obtain ⟨middle, first, later⟩ := Except.bind_eq_ok_iff.mp h
    exact (run_bind_of_ok (accept_of_push_ok first) _).trans (ih later)

theorem acceptAll_of_pushAll_error (h : tokens.foldlM Postfix.push stack = .error fault) :
    ∃ after, (tokens.forM accept).run ⟨stack⟩ = .error fault after := by
  induction tokens generalizing stack with
  | nil => contradiction
  | cons token rest ih =>
    rw [List.foldlM_cons] at h
    rcases Except.bind_eq_error_iff.mp h with failed | ⟨middle, first, later⟩
    · obtain ⟨after, run⟩ := accept_of_push_error failed
      exact ⟨after, run_bind_of_error run _⟩
    · obtain ⟨after, run⟩ := ih later
      exact ⟨after, (run_bind_of_ok (accept_of_push_ok first) _).trans run⟩

theorem evaluate_eq_value (e : Evaluator) (tokens : List Token) :
    (e.evaluate tokens).1 = Postfix.value tokens := by
  have cleared : (set fresh : Step Unit).run e = .ok () ⟨[]⟩ := rfl
  have begins : (reduce tokens).run e = (tokens.forM accept >>= fun _ => conclude).run ⟨[]⟩ :=
    run_bind_of_ok cleared _
  cases run : tokens.foldlM Postfix.push [] with
  | error fault =>
    obtain ⟨after, failed⟩ := acceptAll_of_pushAll_error run
    rw [evaluate, begins, run_bind_of_error failed, Postfix.value, run]
    rfl
  | ok last =>
    rw [evaluate, begins, run_bind_of_ok (acceptAll_of_pushAll_ok run), Postfix.value, run]
    cases last with
    | nil => rfl
    | cons n below => cases below <;> rfl

/-- An evaluator answers with a value exactly when the tokens are the postorder of a tree that has this
    value, and then the tree is the only one; with a division by zero exactly when one is reached before
    any other fault; and otherwise that the expression is invalid. What was evaluated before, with whatever
    end, makes no difference. -/
theorem evaluate_exact (e : Evaluator) (earlier : List (List Token)) (tokens : List Token) :
    let answer := ((e.evaluateAll earlier).2.evaluate tokens).1
    (∀ v, answer = .ok v ↔ ∃ t : Tree, t.postorder = tokens ∧ ¬ t.DividesByZero ∧ t.integer = v) ∧
    (∀ t u : Tree, t.postorder = tokens → u.postorder = tokens → t = u) ∧
    (answer = .error .divisionByZero ↔ Postfix.DividesByZero tokens) ∧
    (answer = .error .invalidExpression ↔
      (¬ ∃ t : Tree, t.postorder = tokens ∧ ¬ t.DividesByZero) ∧ ¬ Postfix.DividesByZero tokens) := by
  intro answer
  have same : answer = Postfix.value tokens := evaluate_eq_value _ tokens
  have valued : ∀ v, answer = .ok v ↔
      ∃ t : Tree, t.postorder = tokens ∧ ¬ t.DividesByZero ∧ t.integer = v := by
    intro v
    rw [same, Postfix.value_eq_ok_iff]
    simp only [Tree.value_eq_ok_iff]
  have divided : answer = .error .divisionByZero ↔ Postfix.DividesByZero tokens := by
    rw [same, Postfix.value_eq_divisionByZero_iff]
  refine ⟨valued, ?_, divided, ?_⟩
  · intro t u first second
    exact Tree.eq_of_postorder_eq (first.trans second.symm)
  · constructor
    · intro refused
      rw [refused] at valued divided
      refine ⟨?_, fun zero => by simpa using divided.mpr zero⟩
      rintro ⟨t, order, fine⟩
      simpa using (valued t.integer).mpr ⟨t, order, fine, rfl⟩
    · rintro ⟨noTree, noZero⟩
      cases result : answer with
      | ok v =>
        obtain ⟨t, order, fine, _⟩ := (valued v).mp result
        exact absurd ⟨t, order, fine⟩ noTree
      | error fault =>
        rw [same] at result
        rcases Postfix.value_eq_error result with rfl | rfl
        · rfl
        · rw [← same] at result
          exact absurd (divided.mp result) noZero

theorem evaluate_exact_after_fault :
    let used : List (List Token) := [[.number 1, .number 2, .closing]]
    let quotient : List Token := [.reference ['a'] 7, .sign .minus, .number 2, .operation .divide]
    let zero : List Token := [.number 1, .number 8, .number 0, .operation .divide, .closing]
    let e := (fresh.evaluateAll used).2
    let tree := Tree.operation .divide (.sign .minus (.reference ['a'] 7)) (.number 2)
    e.stack = [2, 1] ∧ (e.evaluate quotient).1 = .ok (-3) ∧
      (∀ u : Tree, u.postorder = quotient → u = tree) ∧ (e.evaluate zero).1 = .error .divisionByZero := by
  intro used quotient zero e tree
  obtain ⟨valued, unique, _⟩ := evaluate_exact fresh used quotient
  obtain ⟨_, _, divided, _⟩ := evaluate_exact fresh used zero
  refine ⟨rfl, (valued (-3)).mpr ⟨tree, rfl, by decide, rfl⟩, fun u order => unique u tree order rfl,
    divided.mpr ?_⟩
  exact ⟨[.number 1, .number 8, .number 0], by decide, by decide, ⟨.number 0, rfl, rfl⟩, [.closing], rfl⟩

end Evaluator
end LineCalculator

import Mathlib.Data.Finset.Card
import Mathlib.Data.List.Induction
import LineCalculator.Variables.Checkpoint

/- Variables as a finite map, and copies of them to return to. What the current variables are is told by the
   assignments in force, which a return to the copy makes those of the moment when it was taken. -/
namespace LineCalculator

namespace Variables

theorem contains_assign (vars : Variables) (name : Name) (value : Int) (other : Name) :
    (vars.assign name value).contains other = true ↔ vars.contains other = true ∨ name = other := by
  rw [contains_eq, contains_eq, get?_assign]
  split
  · next same => simp [same]
  · next apart => simp [apart]

theorem size_eq_card {vars : Variables} {names : Finset Name}
    (bound : ∀ name, vars.contains name = true ↔ name ∈ names) : vars.size = names.card := by
  have keys : names = vars.table.keys.toFinset := by
    ext name
    rw [← bound, List.mem_toFinset, Std.ExtTreeMap.mem_keys, contains, Std.ExtTreeMap.contains_iff_mem]
  rw [keys, List.toFinset_card_of_nodup Std.ExtTreeMap.nodup_keys, Std.ExtTreeMap.length_keys, size]

def ofHistory (history : List (Name × Int)) : Variables :=
  history.foldr (fun (name, value) vars => vars.assign name value) empty

/-- All that can be asked of the variables is told by the assignments, of which the first is the latest. -/
structure Follows (vars : Variables) (history : List (Name × Int)) : Prop where
  get? (name : Name) : vars.get? name = history.lookup name
  contains (name : Name) : vars.contains name = true ↔ ∃ value, vars.get? name = some value
  size : vars.size = (history.map Prod.fst).toFinset.card
  isEmpty : vars.isEmpty = true ↔ vars.size = 0

theorem get?_ofHistory (history : List (Name × Int)) (name : Name) :
    (ofHistory history).get? name = history.lookup name := by
  induction history with
  | nil => exact get?_empty name
  | cons latest earlier ih =>
    obtain ⟨assigned, value⟩ := latest
    have first : ofHistory ((assigned, value) :: earlier) = (ofHistory earlier).assign assigned value := rfl
    rw [first, get?_assign, List.lookup_cons, ih]
    by_cases same : assigned = name
    · simp [same]
    · have apart : (name == assigned) = false := beq_eq_false_iff_ne.mpr (Ne.symm same)
      simp [same, apart]

theorem contains_ofHistory (history : List (Name × Int)) (name : Name) :
    (ofHistory history).contains name = true ↔ name ∈ (history.map Prod.fst).toFinset := by
  rw [contains_eq, get?_ofHistory, List.lookup_isSome_iff, List.mem_toFinset, List.mem_map]
  simp only [beq_iff_eq, @eq_comm _ name]

theorem follows_ofHistory (history : List (Name × Int)) : (ofHistory history).Follows history := by
  refine ⟨get?_ofHistory history, ?_, size_eq_card (contains_ofHistory history), isEmpty_iff _⟩
  intro name
  rw [contains_eq, Option.isSome_iff_exists]

theorem isEmpty_ofHistory (history : List (Name × Int)) :
    (ofHistory history).isEmpty = history.isEmpty := by
  rw [Bool.eq_iff_iff, isEmpty_iff, (follows_ofHistory history).size, Finset.card_eq_zero,
    List.toFinset_eq_empty_iff, List.map_eq_nil_iff, List.isEmpty_iff]

end Variables

namespace Checkpoint

-- Both read the actions from the last one back to the first.
mutual

/-- The assignments in force behind the actions: a return replaces them by those of the latest copy. -/
def history : List Action → List (Name × Int)
  | [] => []
  | .assign name value :: earlier => (name, value) :: history earlier
  | .restore :: earlier => savedHistory earlier
  | _ :: earlier => history earlier

/-- The assignments that were in force when the latest copy was taken; without a copy there are none. -/
def savedHistory : List Action → List (Name × Int)
  | [] => []
  | .save :: earlier => history earlier
  | _ :: earlier => savedHistory earlier

end

def Action.answer (history : List (Name × Int)) : Action → Answer
  | .get name => .value (history.lookup name)
  | .contains name => .truth (history.lookup name).isSome
  | .isEmpty => .truth history.isEmpty
  | _ => .done

def Action.isQuestion : Action → Bool
  | .get _ | .contains _ | .isEmpty => true
  | _ => false

def after (checkpoint : Checkpoint) (actions : List Action) : Checkpoint :=
  actions.foldl (fun checkpoint action => (checkpoint.step action).2) checkpoint

section
variable (checkpoint : Checkpoint) (before : List Action) (action : Action)

theorem after_append (rest : List Action) :
    checkpoint.after (before ++ rest) = (checkpoint.after before).after rest :=
  List.foldl_append

theorem after_snoc : checkpoint.after (before ++ [action]) = ((checkpoint.after before).step action).2 :=
  after_append checkpoint before [action]

theorem getElem?_run (rest : List Action) :
    (checkpoint.run (before ++ action :: rest))[before.length]? =
      some (((checkpoint.after before).step action).1, (checkpoint.after (before ++ [action])).current) := by
  induction before generalizing checkpoint with
  | nil => rfl
  | cons first before ih => exact ih (checkpoint.step first).2

end

theorem after_eq (actions : List Action) :
    empty.after actions =
      ⟨.ofHistory (history actions.reverse), .ofHistory (savedHistory actions.reverse)⟩ := by
  induction actions using List.reverseRecOn with
  | nil => rfl
  | append_singleton before action ih =>
    rw [after_snoc, ih, List.reverse_append]
    cases action <;> rfl

theorem answer_eq (actions : List Action) (action : Action) :
    ((empty.after actions).step action).1 = action.answer (history actions.reverse) := by
  rw [after_eq]
  cases action with
  | get name => simp only [step, Action.answer, Variables.get?_ofHistory]
  | contains name => simp only [step, Action.answer, Variables.contains_eq, Variables.get?_ofHistory]
  | isEmpty => simp only [step, Action.answer, Variables.isEmpty_ofHistory]
  | _ => rfl

theorem step_question {action : Action} (question : action.isQuestion = true) (checkpoint : Checkpoint) :
    (checkpoint.step action).2 = checkpoint := by
  cases action with
  | get | contains | isEmpty => rfl
  | _ => contradiction

theorem savedHistory_append {between : List Action} (kept : .save ∉ between) (earlier : List Action) :
    savedHistory (between ++ earlier) = savedHistory earlier := by
  induction between with
  | nil => rfl
  | cons action between ih =>
    have others := ih fun mem => kept (List.mem_cons_of_mem action mem)
    cases action with
    | save => exact absurd List.mem_cons_self kept
    | _ => exact others

theorem current_after_restore (actions : List Action) :
    (empty.after (actions ++ [.restore])).current = .ofHistory (savedHistory actions.reverse) := by
  rw [after_eq, List.reverse_append]
  rfl

/-- Whatever was done before, an action answers from the assignments in force, and the variables behind it
    are those of the assignments then in force. A question could as well not have been asked. A return brings
    back the variables of the latest copy, or none if there is none, whatever was done in between. -/
theorem run_follows_history :
    (∀ before action rest, ∃ answer vars,
      (empty.run (before ++ action :: rest))[before.length]? = some (answer, vars) ∧
        answer = action.answer (history before.reverse) ∧
        vars.Follows (history (before ++ [action]).reverse)) ∧
    (∀ before question rest, Action.isQuestion question = true →
      empty.after (before ++ question :: rest) = empty.after (before ++ rest)) ∧
    (∀ before between, .save ∉ between →
      (empty.after (before ++ .save :: between ++ [.restore])).current = (empty.after before).current) ∧
    ∀ before, .save ∉ before → (empty.after (before ++ [.restore])).current = .empty := by
  refine ⟨?_, ?_, ?_, ?_⟩
  · intro before action rest
    refine ⟨_, _, getElem?_run empty before action rest, answer_eq before action, ?_⟩
    rw [after_eq]
    exact Variables.follows_ofHistory _
  · intro before question rest asks
    rw [after_append, after_append]
    exact congrArg (after · rest) (step_question asks _)
  · intro before between kept
    have reversed : (before ++ .save :: between).reverse = between.reverse ++ .save :: before.reverse := by
      simp
    rw [current_after_restore, reversed, savedHistory_append (by simpa using kept), after_eq]
    rfl
  · intro before never
    have none : .save ∉ before.reverse := by simpa using never
    have copies := savedHistory_append none []
    rw [List.append_nil] at copies
    rw [current_after_restore, copies]
    rfl

theorem run_follows_history_past_return :
    let before : List Action := [.assign "x".toList 1, .save, .assign "x".toList 2, .assign [] 5, .restore,
      .assign "y".toList 3]
    ∃ vars, (empty.run (before ++ .get "x".toList :: [.restore]))[6]? = some (.value (some 1), vars) ∧
      vars.size = 2 ∧ vars.get? [] = none ∧
      empty.after (before ++ .get "x".toList :: [.restore]) = empty.after (before ++ [.restore]) ∧
      (empty.after (before ++ [.restore])).current = .assign .empty "x".toList 1 := by
  intro before
  obtain ⟨answers, questions, returns, _⟩ := run_follows_history
  obtain ⟨answer, vars, here, rfl, follows⟩ := answers before (.get "x".toList) [.restore]
  refine ⟨vars, here, follows.size, follows.get? [], questions before _ [.restore] rfl, ?_⟩
  exact returns [.assign "x".toList 1] [.assign "x".toList 2, .assign [] 5, .restore, .assign "y".toList 3]
    (by decide)

end Checkpoint
end LineCalculator

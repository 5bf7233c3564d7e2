import LineCalculator.Proofs.Assignment

/- Lines in order over the variables they leave to each other. Only assignments move the variables, so
   the other lines can be left out of a history without any trace. -/
namespace LineCalculator
namespace Line

def after (vars : Variables) (lines : List (List Char)) : Variables :=
  lines.foldl (fun vars line => (answer vars line).2) vars

/-- No line assigns the name when its turn comes. -/
def Spares (name : Name) : Variables → List (List Char) → Prop
  | _, [] => True
  | now, line :: rest => (∀ value, ¬ Assigns now line name value) ∧ Spares name (answer now line).2 rest

def pick {α : Type} (keep : Nat → Bool) : List α → List α
  | [] => []
  | first :: rest =>
    let others := pick (fun i => keep (i + 1)) rest
    if keep 0 then first :: others else others

variable {vars : Variables} {lines : List (List Char)}

@[simp] theorem after_nil (vars : Variables) : after vars [] = vars := rfl

@[simp] theorem after_cons (vars : Variables) (line : List Char) (rest : List (List Char)) :
    after vars (line :: rest) = after (answer vars line).2 rest := rfl

theorem after_append (vars : Variables) (before later : List (List Char)) :
    after vars (before ++ later) = after (after vars before) later :=
  List.foldl_append

theorem vars_of_not_assignment {now : Variables} {line : List Char}
    (answered : (answer now line).1 ≠ .ok none) : (answer now line).2 = now := by
  rcases answer_vars_or_assigns now line with ⟨_, same⟩ | ⟨name, value, assigns⟩
  · exact same
  · rw [answer_of_assigns assigns] at answered
    contradiction

theorem get?_answer_of_spared {now : Variables} {line : List Char} {name : Name}
    (spared : ∀ value, ¬ Assigns now line name value) :
    (answer now line).2.get? name = now.get? name := by
  rcases answer_vars_or_assigns now line with ⟨_, same⟩ | ⟨other, value, assigns⟩
  · rw [same]
  · have apart : other ≠ name := fun same => spared value (same ▸ assigns)
    rw [answer_of_assigns assigns, Variables.get?_assign, if_neg apart]

theorem get?_after_of_spares {name : Name} (spares : Spares name vars lines) :
    (after vars lines).get? name = vars.get? name := by
  induction lines generalizing vars with
  | nil => rfl
  | cons line rest ih =>
    obtain ⟨spared, others⟩ := spares
    rw [after_cons, ih others, get?_answer_of_spared spared]

theorem run_pick {keep : Nat → Bool}
    (kept : ∀ i step, (run vars lines)[i]? = some step → step.1 = .ok none → keep i = true) :
    run vars (pick keep lines) = pick keep (run vars lines) ∧
      after vars (pick keep lines) = after vars lines := by
  induction lines generalizing vars keep with
  | nil => exact ⟨rfl, rfl⟩
  | cons line rest ih =>
    obtain ⟨runs, ends⟩ : run (answer vars line).2 (pick (fun i => keep (i + 1)) rest) =
          pick (fun i => keep (i + 1)) (run (answer vars line).2 rest) ∧
        after (answer vars line).2 (pick (fun i => keep (i + 1)) rest) =
          after (answer vars line).2 rest := by
      apply ih
      intro i step found
      exact kept (i + 1) step found
    by_cases stays : keep 0 = true
    · simp [pick, run, stays, runs, ends]
    · have silent : (answer vars line).1 ≠ .ok none := fun answered =>
        stays (kept 0 (answer vars line) rfl answered)
      have same := vars_of_not_assignment silent
      rw [same] at runs ends
      simp [pick, run, stays, same, runs, ends]

/-- Lines with a value or a fault leave no trace and can be left out of a history, in any number and
    anywhere. An assignment changes one variable, which keeps its value until a later line assigns it. -/
theorem history_law (vars : Variables) :
    (∀ before line, (answer (after vars before) line).1 ≠ .ok none →
      after vars (before ++ [line]) = after vars before) ∧
    (∀ before line, (answer (after vars before) line).1 = .ok none →
      ∃ name value, Assigns (after vars before) line name value ∧
        (∀ other, (after vars (before ++ [line])).get? other =
          if name = other then some value else (after vars before).get? other) ∧
        ∀ later, Spares name (after vars (before ++ [line])) later →
          (after vars (before ++ line :: later)).get? name = some value) ∧
    ∀ lines keep,
      (∀ i step, (run vars lines)[i]? = some step → step.1 = .ok none → keep i = true) →
      run vars (pick keep lines) = pick keep (run vars lines) ∧
        after vars (pick keep lines) = after vars lines := by
  refine ⟨?_, ?_, fun lines keep kept => run_pick kept⟩
  · intro before line answered
    rw [after_append, after_cons, after_nil]
    exact vars_of_not_assignment answered
  · intro before line answered
    rcases answer_vars_or_assigns (after vars before) line with ⟨other, _⟩ | ⟨name, value, assigns⟩
    · contradiction
    · have next : after vars (before ++ [line]) = (after vars before).assign name value := by
        rw [after_append, after_cons, after_nil, answer_of_assigns assigns]
      refine ⟨name, value, assigns, ?_, ?_⟩
      · intro other
        rw [next, Variables.get?_assign]
      · intro later spares
        have split : before ++ line :: later = (before ++ [line]) ++ later := by simp
        rw [split, after_append, get?_after_of_spares spares, next, Variables.get?_assign, if_pos rfl]

theorem history_law_of_copy :
    let lines := ["x = 2".toList, "y = x".toList, "1 / 0".toList, "x = 7".toList, "y".toList]
    run .empty (pick (· != 2) lines) = pick (· != 2) (run .empty lines) ∧
      (after .empty (pick (· != 2) lines)).get? "y".toList = some 2 := by
  intro lines
  obtain ⟨_, _, deletion⟩ := history_law .empty
  obtain ⟨runs, ends⟩ := deletion lines (· != 2) (by
    intro i step found answered
    have failed : ((run .empty lines)[2]?).map Prod.fst = some (.error .divisionByZero) := rfl
    by_cases dropped : i = 2
    · rw [← dropped, found, Option.map_some, answered] at failed
      simp at failed
    · simpa using dropped)
  exact ⟨runs, by rw [ends]; rfl⟩

end Line
end LineCalculator

import LineCalculator.Proofs.Console.Hearing
import LineCalculator.Proofs.Console.Minutes
import LineCalculator.Proofs.History

/- Which lines a console hears, step by step, and that its variables are those of these lines alone: blank
   lines and commands assign nothing, and neither the view nor a failing output changes a variable. -/
namespace LineCalculator

theorem Line.not_assigns_of_idle {now : Variables} {line : List Char} {name : Name} {value : Int}
    (idle : line.all Text.isBlank = true ∨ line.head? = some '/') : ¬ Assigns now line name value := by
  intro assigns
  obtain ⟨word, text, plain, _⟩ := assigns
  obtain ⟨nonempty, letters⟩ := (Name.isWord_iff name).mp word
  obtain ⟨c, others, rfl⟩ := List.exists_cons_of_ne_nil nonempty
  rcases idle with blank | command
  · rw [(Text.dropBlanks_eq_nil_iff line).mpr blank] at plain
    contradiction
  · obtain ⟨rest, rfl⟩ := List.head?_eq_some_iff.mp command
    rw [Text.dropBlanks, List.filter_cons_of_pos (by decide)] at plain
    have slash : '/' = c := (List.cons.inj plain).1
    have letter := letters c (by simp)
    rw [← slash] at letter
    contradiction

theorem Variables.heard_eq (vars : Variables) (line : List Char) :
    vars.heard line = (Line.answer vars line).2 := by
  unfold heard
  split
  · next idle =>
    rcases Line.answer_vars_or_assigns vars line with ⟨_, same⟩ | ⟨name, value, assigns⟩
    · exact same.symm
    · exact absurd assigns (Line.not_assigns_of_idle idle)
  · rfl

namespace Console
variable {ω : Type} [Output ω]

def Minutes.lines (minutes : Minutes) : List (List Char) :=
  minutes.answers.map fun answer => lineText answer.1

/-- The lines that a console hears in a step: those that want more, and the first that does not. -/
def heardIn (console : Console ω) : Step → List (List Char)
  | .line text => [text]
  | .input bytes ending => (console.minutes ending (Text.cutAfter isNewline bytes)).lines

/-- A console that started without variables, and all lines that it has heard since. -/
inductive Heard : List (List Char) → Console ω → Prop where
  | start (view : View) (json : Bool) (output : ω) : Heard [] (start view json output)
  | step {lines : List (List Char)} {console : Console ω} (before : Heard lines console) (step : Step) :
      Heard (lines ++ console.heardIn step) (console.perform step).effect.console

theorem hear_vars_eq (console : Console ω) (line : List Char) :
    (console.hear line).console.vars = (Line.answer console.vars line).2 := by
  rw [hear_vars, Variables.heard_eq]

theorem readPieces_vars (ending : Ending) (console : Console ω) (pieces : List (List UInt8)) :
    (console.readPieces ending pieces).1.console.vars =
      Line.after console.vars (console.minutes ending pieces).lines := by
  induction console, pieces using run_induction (ω := ω) ending with
  | nil console => cases ending <;> rfl
  | skipped console piece rest skipped =>
    rw [readPieces_of_skipped console rest skipped, minutes_of_skipped console rest skipped]
    rfl
  | more console piece rest heard more ih =>
    rw [readPieces_of_more heard more, minutes_of_more heard more]
    simp only [Minutes.lines, List.map_cons, Line.after_cons, ← hear_vars_eq]
    exact ih
  | stop console piece rest heard stop =>
    rw [readPieces_of_stop heard stop, minutes_of_stop heard stop]
    exact hear_vars_eq console _

theorem perform_vars (console : Console ω) (step : Step) :
    (console.perform step).effect.console.vars = Line.after console.vars (console.heardIn step) := by
  cases step with
  | line text => exact hear_vars_eq console text
  | input bytes ending => exact readPieces_vars ending console _

theorem Heard.vars_eq {lines : List (List Char)} {console : Console ω} (heard : Heard lines console) :
    console.vars = Line.after .empty lines := by
  induction heard with
  | start view json output => rfl
  | step before step ih => rw [perform_vars, Line.after_append, ih]

end Console
end LineCalculator

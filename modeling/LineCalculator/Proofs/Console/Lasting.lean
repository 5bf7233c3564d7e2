import LineCalculator.Proofs.Console.Views

/- Outputs that never fail. Over them what a console writes is what it has to say, and two consoles that
   differ in their outputs alone write the same and go on differing in their outputs alone. -/
namespace LineCalculator
variable {ω : Type}

namespace Output
variable [Output ω]

inductive Becomes (output : ω) : ω → Prop where
  | same : Becomes output output
  | put {now : ω} (earlier : Becomes output now) (bytes : List UInt8) :
      Becomes output (Output.put now bytes).output

/-- The output takes all that it is ever handed. -/
def Lasting (output : ω) : Prop := ∀ now, Becomes output now → Steady now

variable {output : ω}

theorem Lasting.steady (lasting : Lasting output) : Steady output := lasting output .same

theorem Lasting.put (lasting : Lasting output) (bytes : List UInt8) :
    Lasting (Output.put output bytes).output := by
  intro now becomes
  apply lasting
  induction becomes with
  | same => exact .put .same bytes
  | put _ more ih => exact .put ih more

end Output

theorem Room.lasting_none : Output.Lasting (none : Room) := by
  intro now becomes
  have still : now = none := by
    induction becomes with
    | same => rfl
    | put _ bytes ih =>
      rw [ih]
      rfl
  rw [still]
  exact Room.steady_none

namespace Console
variable [Output ω]

section
variable {console : Console ω} (lasting : Output.Lasting console.output) (line : List Char)
include lasting

theorem written_of_lasting :
    (console.hear line).written =
      (console.speech line).elim [] fun text => Utf8.encode (text ++ ['\n']) := by
  cases said : console.speech line with
  | none => rw [hear_of_speech_none said, Option.elim_none]
  | some text =>
    rw [hear_of_speech_some said, Option.elim_some]
    exact lasting.steady.taken _

theorem result_of_lasting : (console.hear line).result = .ok (Demand.ofLine line) := by
  apply result_of_not_refused
  intro refused
  obtain ⟨text, _, failed⟩ := refused
  exact failed (lasting.steady.failure _)

theorem console_of_lasting :
    ∃ output, Output.Lasting output ∧
      (console.hear line).console = { console with vars := console.vars.heard line, output := output } := by
  cases said : console.speech line with
  | none =>
    rw [hear_of_speech_none said]
    exact ⟨console.output, lasting, rfl⟩
  | some text =>
    rw [hear_of_speech_some said]
    exact ⟨_, lasting.put _, rfl⟩

end

/-- Equal variables and settings over outputs that never fail. -/
structure Matches (first second : Console ω) : Prop where
  vars : first.vars = second.vars
  view : first.view = second.view
  json : first.json = second.json
  left : Output.Lasting first.output
  right : Output.Lasting second.output

theorem Matches.self {console : Console ω} (lasting : Output.Lasting console.output) :
    console.Matches console :=
  ⟨rfl, rfl, rfl, lasting, lasting⟩

namespace Matches
variable {first second : Console ω} (matched : first.Matches second) (line : List Char)
include matched

theorem speech : first.speech line = second.speech line := by
  obtain ⟨vars, view, json, output⟩ := first
  obtain ⟨vars', view', json', output'⟩ := second
  obtain ⟨rfl, rfl, rfl, _, _⟩ := matched
  rfl

theorem written : (first.hear line).written = (second.hear line).written := by
  rw [written_of_lasting matched.left, written_of_lasting matched.right, matched.speech]

theorem result : (first.hear line).result = (second.hear line).result := by
  rw [result_of_lasting matched.left, result_of_lasting matched.right]

theorem hear : (first.hear line).console.Matches (second.hear line).console := by
  obtain ⟨output, left, after⟩ := console_of_lasting matched.left line
  obtain ⟨output', right, after'⟩ := console_of_lasting matched.right line
  rw [after, after']
  exact ⟨congrArg (Variables.heard · line) matched.vars, matched.view, matched.json, left, right⟩

end Matches
end Console
end LineCalculator

import LineCalculator.Console.Input
import LineCalculator.Proofs.Expression.Faults

/- What a console does with one line, in three parts: the variables after it, the text it has to say,
   and the demand. Only the text depends on the view, and only the output can make the line fail, so
   two consoles of different views and outputs stay alike however their outputs behave. -/
namespace LineCalculator

theorem Line.answer_dropBlanks (vars : Variables) (line : List Char) :
    Line.answer vars (Text.dropBlanks line) = Line.answer vars line := by
  rw [Line.answer, Text.dropBlanks_dropBlanks, Line.answer]

/-- The variables that a line leaves: blank lines and commands change nothing. -/
def Variables.heard (vars : Variables) (line : List Char) : Variables :=
  if line.all Text.isBlank = true ∨ line.head? = some '/' then vars else (Line.answer vars line).2

def Demand.ofLine (line : List Char) : Demand := if line = "/exit".toList then .done else .more

namespace Console
variable {ω : Type}

def commandText (line : List Char) : List Char :=
  if line = "/help".toList then helpText.toList
  else if line = "/exit".toList then goodbye.toList
  else unknownCommand.toList

/-- What a console has to say to a line, if anything. -/
def speech (console : Console ω) (line : List Char) : Option (List Char) :=
  if line.all Text.isBlank then none
  else if line.head? = some '/' then some (commandText line)
  else
    match (console.reply line).1 with
    | .ok text => text
    | .error fault => some fault.message.toList

theorem replyTokens_vars (console : Console ω) (tokens : List Char → Except Fault (List Token))
    (line : List Char) : (console.replyTokens tokens line).2 = (Line.answer console.vars line).2 := by
  unfold replyTokens
  cases request : Request.ofLine (Text.dropBlanks line) with
  | error fault => simp [request, Line.answer]
  | ok asked =>
    cases asked with
    | expression text => simp [request, Line.answer]
    | assignment target right => simp [request, Line.answer_dropBlanks]

theorem reply_vars (console : Console ω) (line : List Char) :
    (console.reply line).2 = (Line.answer console.vars line).2 := by
  unfold reply
  split
  · rfl
  · exact replyTokens_vars console _ line
  · exact replyTokens_vars console _ line

theorem replyTokens_ne_io (console : Console ω) {tokens : List Char → Except Fault (List Token)}
    (line : List Char) (reason : String) (sound : tokens (Text.dropBlanks line) ≠ .error (.io reason)) :
    (console.replyTokens tokens line).1 ≠ .error (.io reason) := by
  intro h
  unfold replyTokens at h
  cases request : Request.ofLine (Text.dropBlanks line) with
  | error fault =>
    have same : fault = .io reason := by simpa [request] using h
    rcases Request.ofLine_eq_error request with cause | cause <;> simp [cause] at same
  | ok asked =>
    cases asked with
    | expression text => exact sound (by simpa [request, Except.map_eq_error_iff] using h)
    | assignment target right =>
      exact Line.answer_ne_io console.vars _ reason (by simpa [request, Except.map_eq_error_iff] using h)

theorem reply_ne_io (console : Console ω) (line : List Char) (reason : String) :
    (console.reply line).1 ≠ .error (.io reason) := by
  unfold reply
  split
  · intro h
    exact Line.answer_ne_io console.vars line reason (Except.map_eq_error_iff.mp h)
  · apply replyTokens_ne_io
    intro h
    have := Token.ofText_eq_error h
    contradiction
  · apply replyTokens_ne_io
    intro h
    have := Postfix.ofText_eq_error h
    contradiction

variable [Output ω]

theorem obey_eq (console : Console ω) (line : List Char) :
    console.obey line = (console.print (commandText line)).map fun _ => Demand.ofLine line := by
  unfold obey commandText Demand.ofLine
  split
  · next help =>
    rw [help]
    rfl
  · split <;> rfl

theorem ofLine_eq_more {line : List Char} (h : line.all Text.isBlank = true ∨ line.head? ≠ some '/') :
    Demand.ofLine line = .more := by
  unfold Demand.ofLine
  split
  · next exit =>
    rw [exit] at h
    exact absurd h (by decide)
  · rfl

theorem hear_of_speech_none {console : Console ω} {line : List Char} (silent : console.speech line = none) :
    console.hear line =
      ⟨[], { console with vars := console.vars.heard line }, .ok (Demand.ofLine line)⟩ := by
  unfold speech at silent
  unfold hear deliver Variables.heard
  by_cases blank : line.all Text.isBlank = true
  · simp [blank, ofLine_eq_more (Or.inl blank)]
  · by_cases command : line.head? = some '/'
    · simp [blank, command] at silent
    · cases answer : (console.reply line).1 with
      | error fault => simp [blank, command, answer] at silent
      | ok text =>
        have none : text = none := by simpa [blank, command, answer] using silent
        simp [blank, command, answer, none, ofLine_eq_more (Or.inr command), reply_vars]

theorem hear_of_speech_some {console : Console ω} {line text : List Char}
    (spoken : console.speech line = some text) :
    console.hear line =
      (({ console with vars := console.vars.heard line } : Console ω).print text).map
        fun _ => Demand.ofLine line := by
  unfold speech at spoken
  unfold hear deliver Variables.heard
  by_cases blank : line.all Text.isBlank = true
  · simp [blank] at spoken
  · by_cases command : line.head? = some '/'
    · have same : commandText line = text := by simpa [blank, command] using spoken
      simp [blank, command, obey_eq, same]
    · cases answer : (console.reply line).1 with
      | error fault =>
        have same : fault.message.toList = text := by simpa [blank, command, answer] using spoken
        cases fault with
        | io reason => exact absurd answer (reply_ne_io console line reason)
        | _ => simp [blank, command, answer, same, ofLine_eq_more (Or.inr command), reply_vars]
      | ok said =>
        have same : said = some text := by simpa [blank, command, answer] using spoken
        simp [blank, command, answer, same, ofLine_eq_more (Or.inr command), reply_vars]

/-- The output fails on what the console has to say to the line. -/
def Refused (console : Console ω) (line : List Char) : Prop :=
  ∃ text, console.speech line = some text ∧
    (Output.put console.output (Utf8.encode (text ++ ['\n']))).failure ≠ none

theorem hear_vars (console : Console ω) (line : List Char) :
    (console.hear line).console.vars = console.vars.heard line := by
  cases said : console.speech line with
  | none => rw [hear_of_speech_none said]
  | some text =>
    rw [hear_of_speech_some said]
    rfl

theorem result_of_not_refused {console : Console ω} {line : List Char} (taken : ¬ console.Refused line) :
    (console.hear line).result = .ok (Demand.ofLine line) := by
  cases said : console.speech line with
  | none => rw [hear_of_speech_none said]
  | some text =>
    have whole : (Output.put console.output (Utf8.encode (text ++ ['\n']))).failure = none := by
      cases cause : (Output.put console.output (Utf8.encode (text ++ ['\n']))).failure with
      | none => rfl
      | some reason => exact absurd ⟨text, said, by simp [cause]⟩ taken
    rw [hear_of_speech_some said]
    simp [Effect.map, print, write, whole, Except.map]

theorem refused_iff (console : Console ω) (line : List Char) :
    console.Refused line ↔ ∃ reason, (console.hear line).result = .error (.io reason) := by
  constructor
  · rintro ⟨text, said, failed⟩
    obtain ⟨reason, cause⟩ := Option.ne_none_iff_exists'.mp failed
    refine ⟨reason, ?_⟩
    rw [hear_of_speech_some said]
    simp [Effect.map, print, write, cause, Except.map]
  · rintro ⟨reason, failed⟩
    apply Classical.byContradiction
    intro taken
    rw [result_of_not_refused taken] at failed
    contradiction

def heardAll (console : Console ω) (lines : List (List Char)) : Console ω :=
  lines.foldl (fun console line => (console.hear line).console) console

theorem heardAll_vars (console : Console ω) (lines : List (List Char)) :
    (console.heardAll lines).vars = lines.foldl Variables.heard console.vars := by
  unfold heardAll
  induction lines generalizing console with
  | nil => rfl
  | cons line rest ih =>
    rw [List.foldl_cons, ih, hear_vars]
    rfl

/-- Consoles that start with equal variables have equal variables after every line, and make the same
    demand wherever neither output fails. -/
theorem hear_alike {ο : Type} [Output ο] (first : Console ω) (second : Console ο)
    (same : first.vars = second.vars) (before : List (List Char)) (line : List Char) :
    ((first.heardAll before).hear line).console.vars =
        ((second.heardAll before).hear line).console.vars ∧
      (¬ (first.heardAll before).Refused line → ¬ (second.heardAll before).Refused line →
        ∃ demand, ((first.heardAll before).hear line).result = .ok demand ∧
          ((second.heardAll before).hear line).result = .ok demand) := by
  constructor
  · calc
      ((first.heardAll before).hear line).console.vars
          = (before.foldl Variables.heard first.vars).heard line := by rw [hear_vars, heardAll_vars]
      _ = (before.foldl Variables.heard second.vars).heard line := by rw [same]
      _ = ((second.heardAll before).hear line).console.vars := by rw [hear_vars, heardAll_vars]
  · intro firstTaken secondTaken
    exact ⟨Demand.ofLine line, result_of_not_refused firstTaken, result_of_not_refused secondTaken⟩

theorem hear_alike_past_failure :
    let first : Console Room := start .value false none
    let second : Console Room := start .postfixTokens true (some 4)
    let before := ["x = 2".toList, "x + 1".toList]
    ((second.heardAll ["x = 2".toList]).hear "x + 1".toList).result =
        .error (.io Room.writeFailed) ∧
      ((first.heardAll before).hear "y = x".toList).console.vars =
        ((second.heardAll before).hear "y = x".toList).console.vars ∧
      ∃ demand, ((first.heardAll before).hear "y = x".toList).result = .ok demand ∧
        ((second.heardAll before).hear "y = x".toList).result = .ok demand := by
  intro first second before
  have silent : ∀ console : Console Room, console.speech "y = x".toList = none →
      ¬ console.Refused "y = x".toList := by
    rintro console nothing ⟨text, said, _⟩
    rw [nothing] at said
    contradiction
  obtain ⟨vars, demand⟩ := hear_alike first second rfl before "y = x".toList
  exact ⟨rfl, vars, demand (silent _ (by decide)) (silent _ (by decide))⟩

end Console
end LineCalculator

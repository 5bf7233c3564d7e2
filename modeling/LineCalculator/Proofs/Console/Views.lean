import LineCalculator.Proofs.Assignment
import LineCalculator.Proofs.Console.Hearing
import LineCalculator.Proofs.Expression.Staging

/- One line in the three views. Whatever the view, it is an assignment, has a fault, or is an expression;
   an expression is read, put into postfix order and reduced, and each view shows one of these stages. So
   what one view shows and the next makes of it fit together, and a fault stays with all later stages. -/
namespace LineCalculator

structure Output.Steady {ω : Type} [Output ω] (output : ω) : Prop where
  taken (bytes : List UInt8) : (Output.put output bytes).taken = bytes
  failure (bytes : List UInt8) : (Output.put output bytes).failure = none

theorem Room.steady_none : Output.Steady (none : Room) :=
  ⟨fun _ => rfl, fun _ => rfl⟩

namespace Console
variable {ω : Type}

def shown (console : Console ω) (text : List Char) : Except Fault (List Char) :=
  match console.view with
  | .value => (console.vars.value text).map Decimal.ofInt
  | .tokens => (console.vars.tokens text).map console.display
  | .postfixTokens => (console.vars.postfixTokens text).map console.display

section
variable {line : List Char}

theorem reply_of_error {fault : Fault} (request : Request.ofLine (Text.dropBlanks line) = .error fault)
    (console : Console ω) : console.reply line = (.error fault, console.vars) := by
  cases view : console.view <;> simp [reply, replyTokens, view, Line.answer, request, Except.map]

theorem reply_of_expression {text : List Char}
    (request : Request.ofLine (Text.dropBlanks line) = .ok (.expression text)) (console : Console ω) :
    console.reply line = ((console.shown line).map some, console.vars) := by
  have plain := Request.ofLine_eq_expression request
  subst plain
  cases view : console.view with
  | value =>
    simp only [reply, shown, view, Line.answer, request, Variables.value_dropBlanks]
    cases console.vars.value line <;> rfl
  | tokens =>
    simp only [reply, replyTokens, shown, view, request, Variables.tokens_dropBlanks]
    cases console.vars.tokens line <;> rfl
  | postfixTokens =>
    simp only [reply, replyTokens, shown, view, request, Variables.postfixTokens_dropBlanks]
    cases console.vars.postfixTokens line <;> rfl

end

theorem reply_cases (now : Variables) (line : List Char) :
    (∃ name value, Line.Assigns now line name value ∧ ∀ console : Console ω, console.vars = now →
      console.reply line = (.ok none, now.assign name value)) ∨
    (∃ fault, ∀ console : Console ω, console.vars = now → console.reply line = (.error fault, now)) ∨
    ∀ console : Console ω, console.vars = now →
      console.reply line = ((console.shown line).map some, now) := by
  cases request : Request.ofLine (Text.dropBlanks line) with
  | error fault =>
    right; left
    refine ⟨fault, ?_⟩
    intro console same
    rw [reply_of_error request, same]
  | ok asked =>
    cases asked with
    | expression text =>
      right; right
      intro console same
      rw [reply_of_expression request, same]
    | assignment name right =>
      cases moment : now.rightValue right with
      | error fault =>
        right; left
        refine ⟨fault, ?_⟩
        intro console same
        cases view : console.view <;>
          simp [reply, replyTokens, view, same, Line.answer, request, moment, Except.map]
      | ok value =>
        left
        refine ⟨name, value, Line.assigns_iff.mpr ⟨right, request, moment⟩, ?_⟩
        intro console same
        cases view : console.view <;>
          simp [reply, replyTokens, view, same, Line.answer, request, moment, Except.map]

variable [Output ω]

/-- The console writes the text on a line of its own, and does nothing else. -/
structure Utters (console : Console ω) (line text : List Char) : Prop where
  written : (console.hear line).written = Utf8.encode (text ++ ['\n'])
  vars : (console.hear line).console.vars = console.vars
  result : (console.hear line).result = .ok .more

/-- The line is carried out as an assignment, and nothing is written. -/
structure Assigned (console : Console ω) (line : List Char) (name : Name) (value : Int) : Prop where
  assigns : Line.Assigns console.vars line name value
  written : (console.hear line).written = []
  vars : (console.hear line).console.vars = console.vars.assign name value
  result : (console.hear line).result = .ok .more

/-- The line is an expression, and the text is what the view has to show of it. -/
structure Shows (console : Console ω) (line text : List Char) : Prop where
  reply : (console.reply line).1 = .ok (some text)
  spoken : console.Utters line text

/-- The line fails, and its fault is written. -/
structure Reports (console : Console ω) (line : List Char) (fault : Fault) : Prop where
  reply : (console.reply line).1 = .error fault
  spoken : console.Utters line fault.message.toList

section
variable {console : Console ω} {line text said : List Char} {fault other : Fault}

theorem Utters.written_ne_nil (utters : console.Utters line text) : (console.hear line).written ≠ [] := by
  rw [utters.written, Utf8.encode, List.flatMap_append]
  exact List.append_ne_nil_of_right_ne_nil _ (by decide)

theorem Shows.unique (first : console.Shows line text) (second : console.Shows line said) : text = said := by
  have same := first.reply.symm.trans second.reply
  exact Option.some.inj (Except.ok.inj same)

theorem Reports.unique (first : console.Reports line fault) (second : console.Reports line other) :
    fault = other :=
  Except.error.inj (first.reply.symm.trans second.reply)

theorem Shows.not_reports (shows : console.Shows line text) : ¬ console.Reports line fault := by
  intro reports
  have same := shows.reply.symm.trans reports.reply
  contradiction

end

/-- The line is neither blank nor a command, and the output takes what is said to it. -/
structure Attends (console : Console ω) (line : List Char) : Prop where
  visible : line.all Text.isBlank = false
  plain : line.head? ≠ some '/'
  steady : Output.Steady console.output

section
variable {console : Console ω} {line : List Char}
  (attends : console.Attends line)
include attends

theorem speech_of_ok {text : Option (List Char)} (reply : (console.reply line).1 = .ok text) :
    console.speech line = text := by
  simp [speech, attends.visible, attends.plain, reply]

theorem speech_of_error {fault : Fault} (reply : (console.reply line).1 = .error fault) :
    console.speech line = some fault.message.toList := by
  simp [speech, attends.visible, attends.plain, reply]

theorem heard_of_attends : console.vars.heard line = (console.reply line).2 := by
  rw [reply_vars, Variables.heard, if_neg (by simp [attends.visible, attends.plain])]

theorem result_of_attends : (console.hear line).result = .ok .more := by
  rw [← ofLine_eq_more (.inr attends.plain)]
  apply result_of_not_refused
  intro refused
  obtain ⟨text, _, failed⟩ := refused
  exact failed (attends.steady.failure _)

theorem vars_of_attends : (console.hear line).console.vars = (console.reply line).2 := by
  rw [hear_vars, heard_of_attends attends]

theorem utters_of_speech {text : List Char} (spoken : console.speech line = some text)
    (still : (console.reply line).2 = console.vars) : console.Utters line text := by
  refine ⟨?_, (vars_of_attends attends).trans still, result_of_attends attends⟩
  rw [hear_of_speech_some spoken]
  exact attends.steady.taken _

theorem shows_of_reply {text : List Char} (reply : console.reply line = (.ok (some text), console.vars)) :
    console.Shows line text := by
  have shown : (console.reply line).1 = .ok (some text) := by rw [reply]
  exact ⟨shown, utters_of_speech attends (speech_of_ok attends shown) (by rw [reply])⟩

theorem reports_of_reply {fault : Fault} (reply : console.reply line = (.error fault, console.vars)) :
    console.Reports line fault := by
  have failed : (console.reply line).1 = .error fault := by rw [reply]
  exact ⟨failed, utters_of_speech attends (speech_of_error attends failed) (by rw [reply])⟩

theorem assigned_of_reply {name : Name} {value : Int} (assigns : Line.Assigns console.vars line name value)
    (reply : console.reply line = (.ok none, console.vars.assign name value)) :
    console.Assigned line name value := by
  have silent : console.speech line = none := speech_of_ok attends (by rw [reply])
  refine ⟨assigns, by rw [hear_of_speech_none silent], ?_, result_of_attends attends⟩
  rw [vars_of_attends attends, reply]

end

section
variable {vars : Variables} {consoles : View → Console ω} {line : List Char}
  (view : ∀ v, (consoles v).view = v) (same : ∀ v, (consoles v).vars = vars)
  (attends : ∀ v, (consoles v).Attends line)
include same attends

theorem heard_cases :
    (∃ name value, ∀ v, (consoles v).Assigned line name value) ∨
      (∃ fault, ∀ v, (consoles v).Reports line fault) ∨
      ∀ v, (∃ text, (consoles v).shown line = .ok text ∧ (consoles v).Shows line text) ∨
        ∃ fault, (consoles v).shown line = .error fault ∧ (consoles v).Reports line fault := by
  rcases reply_cases vars line with ⟨name, value, assigns, assigned⟩ | ⟨fault, refused⟩ | shown
  · left
    refine ⟨name, value, fun v => assigned_of_reply (attends v) ?_ ?_⟩
    · rwa [same v]
    · rw [assigned (consoles v) (same v), same v]
  · right; left
    refine ⟨fault, fun v => reports_of_reply (attends v) ?_⟩
    rw [refused (consoles v) (same v), same v]
  · right; right
    intro v
    have reply := shown (consoles v) (same v)
    rw [← same v] at reply
    cases said : (consoles v).shown line with
    | ok text =>
      rw [said] at reply
      exact .inl ⟨text, rfl, shows_of_reply (attends v) reply⟩
    | error fault =>
      rw [said] at reply
      exact .inr ⟨fault, rfl, reports_of_reply (attends v) reply⟩

theorem written_eq_nil_iff (v : View) :
    ((consoles v).hear line).written = [] ↔ ∃ name value, ∀ u, (consoles u).Assigned line name value := by
  constructor
  · intro silent
    rcases heard_cases same attends with assigned | ⟨fault, refused⟩ | shown
    · exact assigned
    · exact absurd silent (refused v).spoken.written_ne_nil
    · rcases shown v with ⟨text, _, shows⟩ | ⟨fault, _, reports⟩
      · exact absurd silent shows.spoken.written_ne_nil
      · exact absurd silent reports.spoken.written_ne_nil
  · intro assigned
    obtain ⟨name, value, everywhere⟩ := assigned
    exact (everywhere v).written

theorem Reports.stage {v : View} {fault : Fault} (reports : (consoles v).Reports line fault) :
    (∀ u, (consoles u).Reports line fault) ∨
      (consoles v).shown line = .error fault ∧
        ∀ u other, (consoles u).shown line = .error other → (consoles u).Reports line other := by
  rcases heard_cases same attends with ⟨name, value, assigned⟩ | ⟨other, refused⟩ | shown
  · exact absurd (assigned v).written reports.spoken.written_ne_nil
  · obtain rfl := reports.unique (refused v)
    exact .inl refused
  · right
    refine ⟨?_, ?_⟩
    · rcases shown v with ⟨text, _, shows⟩ | ⟨other, failed, again⟩
      · exact absurd reports shows.not_reports
      · rw [failed, again.unique reports]
    · intro u other failed
      rcases shown u with ⟨text, said, _⟩ | ⟨same, failed', reports'⟩
      · rw [failed] at said
        contradiction
      · rw [failed] at failed'
        rwa [Except.error.inj failed']

theorem Shows.stage {v : View} {text : List Char} (shows : (consoles v).Shows line text) :
    (consoles v).shown line = .ok text ∧
      ∀ u said, (consoles u).shown line = .ok said → (consoles u).Shows line said := by
  rcases heard_cases same attends with ⟨name, value, assigned⟩ | ⟨fault, refused⟩ | shown
  · exact absurd (assigned v).written shows.spoken.written_ne_nil
  · exact absurd (refused v) shows.not_reports
  · refine ⟨?_, ?_⟩
    · rcases shown v with ⟨said, stage, again⟩ | ⟨fault, _, reports⟩
      · rw [stage, again.unique shows]
      · exact absurd reports shows.not_reports
    · intro u said stage
      rcases shown u with ⟨other, stage', shows'⟩ | ⟨fault, failed, _⟩
      · rw [stage] at stage'
        rwa [Except.ok.inj stage']
      · rw [stage] at failed
        contradiction

theorem Reports.later {v u : View} {fault : Fault} (reports : (consoles v).Reports line fault)
    (kept : (consoles v).shown line = .error fault → (consoles u).shown line = .error fault) :
    (consoles u).Reports line fault := by
  rcases reports.stage same attends with everywhere | ⟨failed, others⟩
  · exact everywhere u
  · exact others u fault (kept failed)

include view

theorem stages_of_shows {value : Int} (shows : (consoles .value).Shows line (Decimal.ofInt value)) :
    ∃ ts out, vars.tokens line = .ok ts ∧ vars.postfixTokens line = .ok out ∧
      Postfix.value out = .ok value ∧
      (consoles .tokens).Shows line ((consoles .tokens).display ts) ∧
      (consoles .postfixTokens).Shows line ((consoles .postfixTokens).display out) := by
  obtain ⟨said, others⟩ := shows.stage same attends
  simp only [shown, view, same] at said others
  obtain ⟨number, worth, spelled⟩ := Except.map_eq_ok_iff.mp said
  obtain rfl := Decimal.ofInt_injective spelled
  obtain ⟨out, order, reduced⟩ := Except.bind_eq_ok_iff.mp worth
  obtain ⟨ts, read⟩ := Variables.tokens_of_postfixTokens_ok order
  refine ⟨ts, out, read, order, reduced, others .tokens _ ?_, others .postfixTokens _ ?_⟩
  · simp only [read, Except.map]
  · simp only [order, Except.map]

theorem fault_of_later_stage {fault : Fault}
    (ordered : ∀ other, ¬ (consoles .postfixTokens).Reports line other)
    (reports : (consoles .value).Reports line fault) :
    fault = .invalidExpression ∨ fault = .divisionByZero := by
  rcases reports.stage same attends with everywhere | ⟨failed, _⟩
  · exact absurd (everywhere .postfixTokens) (ordered fault)
  · simp only [shown, view] at failed
    exact Variables.value_eq_error (Except.map_eq_error_iff.mp failed)

/-- Every line is an assignment in all views or in none. A fault of a stage is the fault of all later
    stages; a value is that of the postfix order shown, which is the order of the tokens shown; and what
    fails only when it is reduced divides by zero or has operands too few or too many. -/
theorem views_agree :
    (∀ v, ((consoles v).hear line).written = [] ↔
      ∃ name value, ∀ u, (consoles u).Assigned line name value) ∧
    (∀ fault,
      ((consoles .tokens).Reports line fault → (consoles .postfixTokens).Reports line fault) ∧
      ((consoles .postfixTokens).Reports line fault → (consoles .value).Reports line fault)) ∧
    (∀ value, (consoles .value).Shows line (Decimal.ofInt value) →
      ∃ ts out, vars.tokens line = .ok ts ∧ vars.postfixTokens line = .ok out ∧
        (consoles .tokens).Shows line
          (if (consoles .tokens).json then Token.jsonList ts else Token.spell ts) ∧
        (consoles .postfixTokens).Shows line
          (if (consoles .postfixTokens).json then Token.jsonList out else Token.spell out) ∧
        Postfix.ofTokens ts = .ok out ∧ Postfix.value out = .ok value) ∧
    ∀ fault, (∀ other, ¬ (consoles .postfixTokens).Reports line other) →
      (consoles .value).Reports line fault → fault = .invalidExpression ∨ fault = .divisionByZero := by
  refine ⟨written_eq_nil_iff same attends, ?_, ?_, fun fault => fault_of_later_stage view same attends⟩
  · intro fault
    constructor
    · intro reports
      apply reports.later same attends
      simp only [shown, view, same, Except.map_eq_error_iff]
      intro unread
      rw [Token.ofText_eq_error unread]
      exact Variables.postfixTokens_of_tokens_error unread
    · intro reports
      apply reports.later same attends
      simp only [shown, view, same, Except.map_eq_error_iff]
      exact Variables.value_of_postfixTokens_error
  · intro value shows
    obtain ⟨ts, out, read, order, reduced, tokens, postfixTokens⟩ := stages_of_shows view same attends shows
    exact ⟨ts, out, read, order, tokens, postfixTokens,
      (Variables.postfixTokens_of_tokens read).symm.trans order, reduced⟩

end

theorem views_agree_on_product :
    let vars := Variables.empty.assign "x".toList 5
    let consoles : View → Console Room := fun v => ⟨vars, v, v != .tokens, none⟩
    ∃ ts out, (consoles .tokens).Shows "2 * (x - 3)".toList (Token.spell ts) ∧
      (consoles .postfixTokens).Shows "2 * (x - 3)".toList (Token.jsonList out) ∧
      Postfix.ofTokens ts = .ok out ∧ Postfix.value out = .ok 4 := by
  intro vars consoles
  have attends : ∀ v, (consoles v).Attends "2 * (x - 3)".toList := fun v =>
    ⟨by decide, by decide, Room.steady_none⟩
  have view : ∀ v, (consoles v).view = v := fun _ => rfl
  have same : ∀ v, (consoles v).vars = vars := fun _ => rfl
  have shows : (consoles .value).Shows "2 * (x - 3)".toList (Decimal.ofInt 4) :=
    shows_of_reply (attends .value) rfl
  obtain ⟨_, _, stages, _⟩ := views_agree view same attends
  obtain ⟨ts, out, _, _, later⟩ := stages 4 shows
  exact ⟨ts, out, later⟩

end Console
end LineCalculator

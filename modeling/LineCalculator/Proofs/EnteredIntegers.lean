import LineCalculator.Proofs.Console.Views
import LineCalculator.Proofs.Request.Bytewise
import LineCalculator.Proofs.WrittenLines

/- An integer is the same wherever it is entered. The right side of an assignment is read at once, sign and
   digits; an expression is cut into tokens, and its sign applied when it is reduced. Both come to the
   integer that the text writes, and what a console shows is such a text again. -/
namespace LineCalculator

namespace Line
variable {text : List Char} {v : Int}

/-- Whatever the variables are, the text is an expression of the integer, and a variable that is assigned the
    text has the integer for its value. -/
structure Enters (text : List Char) (v : Int) : Prop where
  expression (vars : Variables) : answer vars text = (.ok (some v), vars)
  assignment (vars : Variables) {name : Name} (word : name.isWord = true) :
    answer vars (name ++ '=' :: text) = (.ok none, vars.assign name v)
  recalled (vars : Variables) {name : Name} (word : name.isWord = true) :
    answer (answer vars (name ++ '=' :: text)).2 name = (.ok (some v), vars.assign name v)

theorem assigns_of_literal (literal : Literal text v) (now : Variables) {name : Name}
    (word : name.isWord = true) : Assigns now (name ++ '=' :: text) name v := by
  have clear := Text.dropBlanks_around_equals word literal.dropBlanks
  exact ⟨word, text, clear, .inl (Decimal.readInt?_eq_some_iff.mpr literal)⟩

theorem enters_of_literal (literal : Literal text v) : Enters text v := by
  have assignment : ∀ (vars : Variables) {name : Name}, name.isWord = true →
      answer vars (name ++ '=' :: text) = (.ok none, vars.assign name v) :=
    fun vars _ word => answer_of_assigns (assigns_of_literal literal vars word)
  constructor
  · intro vars
    exact answer_of_literal literal
  · exact assignment
  · intro vars name word
    rw [assignment vars word]
    exact answer_of_held word (by rw [Variables.get?_assign, if_pos rfl])

end Line

namespace Console
variable {ω : Type} {console : Console ω} {text : List Char} {v : Int}

theorem reply_of_answer {line : List Char} {outcome : Option Int} {after : Variables}
    (view : console.view = .value) (answer : Line.answer console.vars line = (.ok outcome, after)) :
    console.reply line = (.ok (outcome.map Decimal.ofInt), after) := by
  simp [reply, view, answer, Except.map]

variable [Output ω]

/-- Typed to the console, the text is shown as the integer. Typed behind a name and an equals sign it is
    assigned, and then the name is shown as the integer. -/
structure Accepts (console : Console ω) (text : List Char) (v : Int) : Prop where
  expression : console.Shows text (Decimal.ofInt v)
  assignment {name : Name} (word : name.isWord = true) : console.Assigned (name ++ '=' :: text) name v
  recalled {name : Name} (word : name.isWord = true) :
    (console.hear (name ++ '=' :: text)).console.Shows name (Decimal.ofInt v)

theorem attends_of_clear {line : List Char} (clear : Text.dropBlanks line = line) (some : line ≠ [])
    (plain : '/' ∉ line) (steady : Output.Steady console.output) : console.Attends line := by
  constructor
  · by_contra blank
    have nothing := (Text.dropBlanks_eq_nil_iff line).mpr (by simpa using blank)
    exact some (clear.symm.trans nothing)
  · intro slash
    exact plain (List.mem_of_head? slash)
  · exact steady

theorem value_of_shows {line : List Char} (view : console.view = .value) (shows : console.Shows line text) :
    ∃ v, (Line.answer console.vars line).1 = .ok (some v) ∧ text = Decimal.ofInt v := by
  have reply := shows.reply
  simp only [Console.reply, view] at reply
  obtain ⟨outcome, answer, spelled⟩ := Except.map_eq_ok_iff.mp reply
  obtain ⟨v, rfl, same⟩ := Option.map_eq_some_iff.mp spelled
  exact ⟨v, answer, same.symm⟩

theorem hear_of_assigns {line : List Char} {name : Name} (view : console.view = .value)
    (attends : console.Attends line) (assigns : Line.Assigns console.vars line name v) :
    console.hear line = ⟨[], { console with vars := console.vars.assign name v }, .ok .more⟩ := by
  have reply := reply_of_answer view (Line.answer_of_assigns assigns)
  have silent : console.speech line = none := speech_of_ok attends (by rw [reply]; rfl)
  rw [hear_of_speech_none silent, heard_of_attends attends, reply, ofLine_eq_more (.inr attends.plain)]

theorem accepts_of_literal (view : console.view = .value) (steady : Output.Steady console.output)
    (literal : Literal text v) : console.Accepts text v := by
  have slash : ∀ {name : Name}, name.isWord = true → '/' ∉ name := by
    intro name word mem
    have letter := Name.isAlpha_of_mem word mem
    contradiction
  have attends : ∀ {name : Name}, name.isWord = true → console.Attends (name ++ '=' :: text) := by
    intro name word
    have plain : '/' ∉ name ++ '=' :: text := by simp [slash word, literal.slash_not_mem]
    exact attends_of_clear (Text.dropBlanks_around_equals word literal.dropBlanks) (by simp) plain steady
  constructor
  · have alone := attends_of_clear literal.dropBlanks literal.ne_nil literal.slash_not_mem steady
    exact shows_of_reply alone (reply_of_answer view (Line.answer_of_literal literal))
  · intro name word
    have assigns := Line.assigns_of_literal literal console.vars word
    exact assigned_of_reply (attends word) assigns (reply_of_answer view (Line.answer_of_assigns assigns))
  · intro name word
    rw [hear_of_assigns view (attends word) (Line.assigns_of_literal literal console.vars word)]
    let after : Console ω := { console with vars := console.vars.assign name v }
    have held : after.vars.get? name = some v := by rw [Variables.get?_assign, if_pos rfl]
    have nonempty : name ≠ [] := ((Name.isWord_iff name).mp word).1
    have attends : after.Attends name :=
      attends_of_clear (Text.dropBlanks_of_isWord word) nonempty (slash word) steady
    have again : after.view = .value := view
    exact shows_of_reply attends (reply_of_answer again (Line.answer_of_held word held))

/-- Every text that is read as an integer is an expression of it and gives it to any variable. The decimal
    text of an integer is one of these; so what a console shows of a line can be typed to any console that
    shows values, alone or behind a name and an equals sign, and is the same integer there. -/
theorem integers_entered_alike {ω ο : Type} [Output ω] [Output ο] :
    (∀ text v, Bytewise.readInt? text = some v → Line.Enters text v) ∧
    (∀ n, Bytewise.readInt? (Decimal.ofInt n) = some n ∧ Line.Enters (Decimal.ofInt n) n) ∧
    ∀ (console : Console ω) (line text : List Char), console.view = .value → console.Shows line text →
      ∃ v, (Line.answer console.vars line).1 = .ok (some v) ∧ text = Decimal.ofInt v ∧
        ∀ later : Console ο, later.view = .value → Output.Steady later.output → later.Accepts text v := by
  constructor
  · intro text v read
    rw [Bytewise.readInt?_eq] at read
    exact Line.enters_of_literal (Decimal.readInt?_eq_some_iff.mp read)
  constructor
  · intro n
    rw [Bytewise.readInt?_eq]
    exact ⟨Decimal.readInt?_ofInt n, Line.enters_of_literal (Literal.ofInt n)⟩
  · intro console line text view shows
    obtain ⟨v, worth, same⟩ := value_of_shows view shows
    refine ⟨v, worth, same, ?_⟩
    intro later view steady
    rw [same]
    exact accepts_of_literal view steady (Literal.ofInt v)

theorem integers_entered_alike_below_zero :
    let console := Console.start .value false (none : Room)
    Line.Enters "-007".toList (-7) ∧ Line.Enters "+0".toList 0 ∧
      console.Shows "5-8".toList "-3".toList ∧ console.Accepts "-3".toList (-3) := by
  intro console
  obtain ⟨literals, _, session⟩ := @integers_entered_alike Room Room _ _
  have attends : console.Attends "5-8".toList := ⟨by decide, by decide, Room.steady_none⟩
  have shows : console.Shows "5-8".toList "-3".toList := shows_of_reply attends rfl
  obtain ⟨v, worth, same, back⟩ := session console "5-8".toList "-3".toList rfl shows
  have three : v = -3 := Decimal.ofInt_injective (same.symm.trans rfl)
  rw [three] at back
  exact ⟨literals _ _ (by decide), literals _ _ (by decide), shows, back console rfl Room.steady_none⟩

end Console
end LineCalculator

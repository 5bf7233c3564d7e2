import LineCalculator.Proofs.Assignment
import LineCalculator.Proofs.Request.Bytewise
import LineCalculator.Proofs.Text.Literals

/- The grammar of requests: which texts are assignments, of what, and which fault each text has that is no
   request. The left side is to blame before the right, and more than one equals sign before both. -/
namespace LineCalculator

def Word (name : Name) : Prop := name ≠ [] ∧ ∀ c ∈ name, c.isAlpha = true

/-- The text is a right side: a literal with its value, or a word. -/
inductive Denotes : List Char → RightSide → Prop where
  | integer {text : List Char} {v : Int} (literal : Literal text v) : Denotes text (.integer v)
  | copyOf {name : Name} (word : Word name) : Denotes name (.copyOf name)

/-- What a text is judged to be. -/
inductive Judged : List Char → Except Fault Request → Prop where
  | expression {line : List Char} (none : '=' ∉ line) : Judged line (.ok (.expression line))
  | assignment {target : Name} {text : List Char} {right : RightSide} (word : Word target)
      (denotes : Denotes text right) : Judged (target ++ '=' :: text) (.ok (.assignment target right))
  | wrongTarget {left right : List Char} (one : '=' ∉ left ∧ '=' ∉ right) (fault : ¬ Word left) :
      Judged (left ++ '=' :: right) (.error .invalidIdentifier)
  | wrongRight {target : Name} {right : List Char} (one : '=' ∉ right) (word : Word target)
      (fault : ∀ side, ¬ Denotes right side) : Judged (target ++ '=' :: right) (.error .invalidAssignment)
  | tooMany {line : List Char} (many : 2 ≤ line.count '=') : Judged line (.error .invalidAssignment)

theorem RightSide.ofText?_eq_some_iff_denotes {text : List Char} {right : RightSide} :
    ofText? text = some right ↔ Denotes text right := by
  rw [ofText?_eq_some_iff]
  constructor
  · intro kind
    rcases kind with ⟨v, read, same⟩ | ⟨word, same⟩
    · rw [same]
      exact .integer (Decimal.readInt?_eq_some_iff.mp read)
    · rw [same]
      exact .copyOf ((Name.isWord_iff text).mp word)
  · intro denotes
    cases denotes with
    | integer literal => exact .inl ⟨_, Decimal.readInt?_eq_some_iff.mpr literal, rfl⟩
    | copyOf word => exact .inr ⟨(Name.isWord_iff text).mpr word, rfl⟩

namespace Request

theorem ofLine_of_denotes {target : Name} {text : List Char} {right : RightSide} (word : Word target)
    (denotes : Denotes text right) : ofLine (target ++ '=' :: text) = .ok (.assignment target right) := by
  have read := RightSide.ofText?_eq_some_iff_denotes.mpr denotes
  exact ofLine_eq_assignment_iff.mpr ⟨(Name.isWord_iff target).mpr word, text, rfl, read⟩

theorem ofLine_of_judged {line : List Char} {outcome : Except Fault Request} (judged : Judged line outcome) :
    ofLine line = outcome := by
  cases judged with
  | expression none => exact ofLine_expression none
  | assignment word denotes => exact ofLine_of_denotes word denotes
  | @wrongTarget left right one fault =>
    have noWord : ¬ Name.isWord left = true := fun word => fault ((Name.isWord_iff left).mp word)
    rw [ofLine_append_equals one.1 one.2, if_neg noWord]
  | @wrongRight target right one word fault =>
    have isWord := (Name.isWord_iff target).mpr word
    have none : RightSide.ofText? right = .none := by
      apply Option.eq_none_iff_forall_ne_some.mpr
      intro side read
      exact fault side (RightSide.ofText?_eq_some_iff_denotes.mp read)
    rw [ofLine_append_equals (Name.equals_not_mem isWord) one, if_pos isWord, none, Option.elim_none]
  | tooMany many => exact ofLine_of_many many

theorem exists_judged (line : List Char) : ∃ outcome, Judged line outcome := by
  by_cases some : '=' ∈ line
  · obtain ⟨left, right, rfl, clear⟩ := List.eq_append_cons_of_mem some
    by_cases more : '=' ∈ right
    · exact ⟨_, .tooMany (Text.two_le_count_equals left more)⟩
    · by_cases word : Word left
      · by_cases denotes : ∃ side, Denotes right side
        · obtain ⟨side, denotes⟩ := denotes
          exact ⟨_, .assignment word denotes⟩
        · exact ⟨_, .wrongRight more word fun side here => denotes ⟨side, here⟩⟩
      · exact ⟨_, .wrongTarget ⟨clear, more⟩ word⟩
  · exact ⟨_, .expression some⟩

/-- A line is judged as the grammar says, by its characters and by its bytes alike. What is written as a
    target and a right side is read back as these two. -/
theorem ofLine_eq_iff_judged :
    (∀ line outcome, ofLine line = outcome ↔ Judged line outcome) ∧
    (∀ line, Bytewise.request line = ofLine line) ∧
    ∀ target text right, Word target → Denotes text right →
      ofLine (target ++ '=' :: text) = .ok (.assignment target right) := by
  constructor
  · intro line outcome
    constructor
    · intro same
      obtain ⟨other, judged⟩ := exists_judged line
      rw [← same, ofLine_of_judged judged]
      exact judged
    · exact ofLine_of_judged
  constructor
  · exact Bytewise.request_eq
  · intro target text right
    exact ofLine_of_denotes

theorem ofLine_eq_iff_judged_of_signs :
    ofLine "x=-007".toList = .ok (.assignment "x".toList (.integer (-7))) ∧
      Judged "é=+".toList (.error .invalidIdentifier) ∧
      Judged "x=-".toList (.error .invalidAssignment) ∧
      Judged "x=+-5".toList (.error .invalidAssignment) ∧
      Judged "x=-é".toList (.error .invalidAssignment) ∧
      Bytewise.request "x=-é".toList = .error .invalidAssignment := by
  obtain ⟨judged, bytewise, written⟩ := ofLine_eq_iff_judged
  have word : Word "x".toList := (Name.isWord_iff _).mp rfl
  have literal : Literal "-007".toList (-7) := Decimal.readInt?_eq_some_iff.mp (by decide)
  have foreign : ofLine "x=-é".toList = .error .invalidAssignment := by decide
  exact ⟨written _ "-007".toList _ word (.integer literal), (judged _ _).mp (by decide),
    (judged _ _).mp (by decide), (judged _ _).mp (by decide), (judged _ _).mp foreign,
    (bytewise _).trans foreign⟩

end Request
end LineCalculator

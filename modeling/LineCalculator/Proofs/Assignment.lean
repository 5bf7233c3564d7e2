import LineCalculator.Line
import LineCalculator.Proofs.Fallible

/- A line without a fault and without a value is an assignment. What it writes left of its equals sign
   and what it writes to the right say which variable it changes, and to what. -/
namespace LineCalculator

theorem Decimal.mem_of_readInt? {text : List Char} {value : Int} (h : readInt? text = some value) :
    ∀ c ∈ text, c.isDigit = true ∨ c = '-' ∨ c = '+' := by
  have digits : ∀ {rest : List Char} {n : Nat}, readNat? rest = some n → ∀ c ∈ rest, c.isDigit = true :=
    fun read => (readNat?_eq_some_iff.mp read).1.2
  unfold readInt? at h
  split at h
  all_goals
    obtain ⟨n, read, _⟩ := Option.map_eq_some_iff.mp h
    have inside := digits read
    grind

theorem Decimal.readInt?_of_letter {text : List Char} {c : Char} (mem : c ∈ text)
    (letter : c.isAlpha = true) : readInt? text = none := by
  apply Option.eq_none_iff_forall_ne_some.mpr
  intro value read
  rcases mem_of_readInt? read c mem with digit | sign
  · simp [isDigit_eq_false_of_isAlpha letter] at digit
  · rcases sign with minus | plus
    · simp [minus] at letter
    · simp [plus] at letter

theorem Decimal.readInt?_of_isWord {text : List Char} (word : Name.isWord text = true) :
    readInt? text = none := by
  obtain ⟨nonempty, letters⟩ := (Name.isWord_iff text).mp word
  obtain ⟨c, rest, rfl⟩ := List.exists_cons_of_ne_nil nonempty
  exact readInt?_of_letter (List.mem_cons_self ..) (letters c (by simp))

theorem RightSide.ofText?_eq_some_iff {text : List Char} {right : RightSide} :
    ofText? text = some right ↔
      (∃ value, Decimal.readInt? text = some value ∧ right = .integer value) ∨
        Name.isWord text = true ∧ right = .copyOf text := by
  unfold ofText?
  cases read : Decimal.readInt? text with
  | some value =>
    have number : Name.isWord text = false := by
      by_cases word : Name.isWord text = true
      · simp [Decimal.readInt?_of_isWord word] at read
      · simpa using word
    simp [number, @eq_comm _ right]
  | none => simp [@eq_comm _ right]

theorem RightSide.not_equals_of_ofText? {text : List Char} {right : RightSide}
    (h : ofText? text = some right) : '=' ∉ text := by
  intro mem
  rcases ofText?_eq_some_iff.mp h with ⟨value, read, _⟩ | ⟨word, _⟩
  · have := Decimal.mem_of_readInt? read '=' mem
    simp at this
  · exact Name.equals_not_mem word mem

theorem Text.takeWhile_append_equals {target : List Char} (clear : '=' ∉ target) (text : List Char) :
    (target ++ '=' :: text).takeWhile (· ≠ '=') = target := by
  have before : ∀ c ∈ target, decide (c ≠ '=') = true := by
    intro c mem
    have apart : c ≠ '=' := fun same => clear (same ▸ mem)
    exact decide_eq_true apart
  rw [List.takeWhile_append_of_pos before]
  simp

theorem Text.dropBlanks_around_equals {target : Name} {text : List Char} (word : target.isWord = true)
    (clear : dropBlanks text = text) : dropBlanks (target ++ '=' :: text) = target ++ '=' :: text := by
  have equals : dropBlanks ('=' :: text) = '=' :: dropBlanks text := List.filter_cons_of_pos (by decide)
  rw [dropBlanks_append, equals, dropBlanks_of_isWord word, clear]

theorem Request.ofLine_append_equals {target text : List Char} (clear : '=' ∉ target)
    (rest : '=' ∉ text) :
    ofLine (target ++ '=' :: text) =
      if Name.isWord target then
        (RightSide.ofText? text).elim (.error .invalidAssignment) fun right =>
          .ok (.assignment target right)
      else .error .invalidIdentifier := by
  have one : (target ++ '=' :: text).count '=' = 1 := by
    simp [List.count_eq_zero_of_not_mem clear, List.count_eq_zero_of_not_mem rest]
  have left := Text.takeWhile_append_equals clear text
  have right : (target ++ '=' :: text).dropWhile (· ≠ '=') = '=' :: text := by
    have whole := List.takeWhile_append_dropWhile (p := (· ≠ '=')) (l := target ++ '=' :: text)
    rw [left] at whole
    exact List.append_cancel_left whole
  simp only [ofLine, one, left, right, List.tail_cons]
  cases RightSide.ofText? text <;> rfl

theorem Request.ofLine_expression {line : List Char} (none : '=' ∉ line) :
    ofLine line = .ok (.expression line) := by
  have zero : line.count '=' = 0 := List.count_eq_zero.mpr none
  simp only [ofLine, zero]

theorem Request.ofLine_of_many {line : List Char} (many : 2 ≤ line.count '=') :
    ofLine line = .error .invalidAssignment := by
  obtain ⟨n, number⟩ := Nat.exists_eq_add_of_le' many
  simp only [ofLine, number]

theorem Text.two_le_count_equals (target : List Char) {text : List Char} (more : '=' ∈ text) :
    2 ≤ (target ++ '=' :: text).count '=' := by
  have again : 0 < text.count '=' := List.count_pos_iff.mpr more
  rw [List.count_append, List.count_cons_self]
  omega

theorem Request.ofLine_of_more_equals (target : List Char) {text : List Char} (more : '=' ∈ text) :
    ofLine (target ++ '=' :: text) = .error .invalidAssignment :=
  ofLine_of_many (Text.two_le_count_equals target more)

theorem Request.ofLine_eq_assignment_iff {line : List Char} {target : Name} {right : RightSide} :
    ofLine line = .ok (.assignment target right) ↔
      Name.isWord target = true ∧
        ∃ text, line = target ++ '=' :: text ∧ RightSide.ofText? text = some right := by
  constructor
  · intro h
    have one : line.count '=' = 1 := by
      unfold ofLine at h
      split at h
      · cases h
      · assumption
      · contradiction
    obtain ⟨front, back, rfl, clear⟩ :=
      List.eq_append_cons_of_mem (List.count_pos_iff.mp (by omega : 0 < line.count '='))
    have rest : '=' ∉ back := by
      rw [List.count_append, List.count_cons_self, List.count_eq_zero_of_not_mem clear] at one
      exact List.count_eq_zero.mp (by omega)
    rw [ofLine_append_equals clear rest] at h
    split at h
    · next word =>
      cases read : RightSide.ofText? back with
      | none => simp [read] at h
      | some side =>
        rw [read] at h
        cases h
        exact ⟨word, back, rfl, read⟩
    · contradiction
  · rintro ⟨word, text, rfl, read⟩
    have clear : '=' ∉ target := Name.equals_not_mem word
    rw [ofLine_append_equals clear (RightSide.not_equals_of_ofText? read), if_pos word, read, Option.elim_some]

theorem Variables.rightValue_eq_ok_iff {now : Variables} {right : RightSide} {value : Int} :
    now.rightValue right = .ok value ↔
      right = .integer value ∨ ∃ name, right = .copyOf name ∧ now.get? name = some value := by
  cases right with
  | integer n => simp [Variables.rightValue]
  | copyOf name => cases found : now.get? name <;> simp [Variables.rightValue, found]

namespace Line

/-- The line gives the name a value: the integer on its right, or the value that the variable on its
    right has at the moment. -/
def Assigns (now : Variables) (line : List Char) (name : Name) (value : Int) : Prop :=
  Name.isWord name = true ∧ ∃ text, Text.dropBlanks line = name ++ '=' :: text ∧
    (Decimal.readInt? text = some value ∨ Name.isWord text = true ∧ now.get? text = some value)

variable {now : Variables} {line : List Char}

theorem assigns_iff {name : Name} {value : Int} :
    Assigns now line name value ↔
      ∃ right, Request.ofLine (Text.dropBlanks line) = .ok (.assignment name right) ∧
        now.rightValue right = .ok value := by
  simp only [Assigns, Request.ofLine_eq_assignment_iff, RightSide.ofText?_eq_some_iff,
    Variables.rightValue_eq_ok_iff]
  constructor
  · rintro ⟨word, text, same, literal | ⟨letters, held⟩⟩
    · exact ⟨.integer value, ⟨word, text, same, .inl ⟨value, literal, rfl⟩⟩, .inl rfl⟩
    · exact ⟨.copyOf text, ⟨word, text, same, .inr ⟨letters, rfl⟩⟩, .inr ⟨text, rfl, held⟩⟩
  · rintro ⟨right, ⟨word, text, same, kind⟩, moment⟩
    refine ⟨word, text, same, ?_⟩
    grind

theorem answer_of_assigns {name : Name} {value : Int} (assigns : Assigns now line name value) :
    answer now line = (.ok none, now.assign name value) := by
  obtain ⟨right, request, moment⟩ := assigns_iff.mp assigns
  simp only [answer, request, moment]

theorem answer_vars_or_assigns (now : Variables) (line : List Char) :
    (answer now line).1 ≠ .ok none ∧ (answer now line).2 = now ∨
      ∃ name value, Assigns now line name value := by
  cases request : Request.ofLine (Text.dropBlanks line) with
  | error fault => simp [answer, request]
  | ok asked =>
    cases asked with
    | expression text =>
      left
      simp [answer, request, Except.map_eq_ok_iff]
    | assignment name right =>
      cases moment : now.rightValue right with
      | error fault => simp [answer, request, moment]
      | ok value => exact .inr ⟨name, value, assigns_iff.mpr ⟨right, request, moment⟩⟩

end Line
end LineCalculator

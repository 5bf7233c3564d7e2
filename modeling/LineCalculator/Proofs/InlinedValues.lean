import LineCalculator.Proofs.WrittenLines

/- A variable may be written out. Where a line has its name, the decimal text of its value means the same,
   without parentheses too: a minus in front of the digits is a sign wherever an operand may stand, and a
   sign binds closer than any operation. -/
namespace LineCalculator

namespace Text
variable {m : Char} {name other : Name} {new : List Char}

/-- The text with each longest run of letters that is the name replaced; all else stays. -/
def replaceWord (name : Name) (new text : List Char) : List Char :=
  (Lexeme.cut text).flatMap fun l => if l = .word name then new else l.text

theorem replaceWord_append_mark (mark : (Lexeme.mark m).Proper) (first rest : List Char) :
    replaceWord name new (first ++ m :: rest) =
      replaceWord name new first ++ m :: replaceWord name new rest := by
  simp [replaceWord, Lexeme.cut_append_mark mark, Lexeme.text]

theorem replaceWord_mark_cons (mark : (Lexeme.mark m).Proper) (rest : List Char) :
    replaceWord name new (m :: rest) = m :: replaceWord name new rest := by
  simp [replaceWord, Lexeme.cut_mark_cons mark, Lexeme.text]

theorem replaceWord_group (text : List Char) :
    replaceWord name new ('(' :: text ++ [')']) = '(' :: replaceWord name new text ++ [')'] := by
  rw [List.cons_append, replaceWord_mark_cons Lexeme.opening_proper,
    replaceWord_append_mark Lexeme.closing_proper]
  rfl

theorem replaceWord_digits {text : List Char} (some : text ≠ []) (digits : ∀ c ∈ text, c.isDigit = true) :
    replaceWord name new text = text := by
  simp [replaceWord, Lexeme.cut_digits some digits, Lexeme.text]

theorem replaceWord_word (word : other.isWord = true) :
    replaceWord name new other = if other = name then new else other := by
  simp [replaceWord, Lexeme.cut_word word, Lexeme.text]

end Text

def Formula.put (f : Formula) (name : Name) (new : Formula) : Formula :=
  match f with
  | .digits text => .digits text
  | .word other => if other = name then new else .word other
  | .sign s f => .sign s (f.put name new)
  | .operation o l r => .operation o (l.put name new) (r.put name new)

theorem Formula.names_put (f : Formula) (name : Name) {new : Formula} (closed : new.names = []) :
    (f.put name new).names = f.names.filter (· ≠ name) := by
  induction f with
  | digits text => rfl
  | word other =>
    by_cases same : other = name
    · simp [put, names, same, closed]
    · simp [put, names, same]
  | sign s f ih => exact ih
  | operation o l r ihl ihr => simp [put, names, ihl, ihr]

theorem Formula.value_put (f : Formula) {name : Name} {new : Formula} {values : Name → Int}
    (worth : (new.tree values).value = .ok (values name)) :
    ((f.put name new).tree values).value = (f.tree values).value := by
  induction f with
  | digits text => rfl
  | word other =>
    by_cases same : other = name
    · rw [put, if_pos same, worth, same]
      rfl
    · rw [put, if_neg same]
  | sign s f ih => simp only [put, tree, Tree.value, ih]
  | operation o l r ihl ihr => simp only [put, tree, Tree.value, ihl, ihr]

theorem Writes.put {level : Level} {text : List Char} {f : Formula} (written : Writes level text f)
    (name : Name) {replacement : List Char} {new : Formula} (factor : Writes .factor replacement new) :
    Writes level (Text.replaceWord name replacement text) (f.put name new) := by
  induction written with
  | digits some digits =>
    rw [Text.replaceWord_digits some digits]
    exact .digits some digits
  | @word other word =>
    rw [Text.replaceWord_word word, Formula.put]
    by_cases same : other = name
    · rwa [if_pos same, if_pos same]
    · rw [if_neg same, if_neg same]
      exact .word word
  | group inner ih =>
    rw [Text.replaceWord_group]
    exact .group ih
  | sign s operand ih =>
    rw [Text.replaceWord_mark_cons s.symbol_proper]
    exact .sign s ih
  | ofFactor only ih => exact .ofFactor ih
  | product o tight first second ihl ihr =>
    rw [Text.replaceWord_append_mark o.symbol_proper]
    exact .product o tight ihl ihr
  | ofTerm only ih => exact .ofTerm ih
  | sum o loose first second ihl ihr =>
    rw [Text.replaceWord_append_mark o.symbol_proper]
    exact .sum o loose ihl ihr

namespace Line
variable {vars : Variables} {line text : List Char} {f : Formula} {name : Name} {value : Int}

theorem answer_replaceWord_literal (written : Writes .sum line f) (held : vars.get? name = some value)
    (literal : Literal text value) :
    answer vars (Text.replaceWord name text line) = answer vars line := by
  obtain ⟨new, factor, closed, worth⟩ := literal.writes
  have replaced := written.put name factor
  have names := f.names_put name closed
  by_cases unknown : ∃ other ∈ f.names, vars.get? other = none
  · obtain ⟨other, mem, unheld⟩ := unknown
    have apart : other ≠ name := by
      intro same
      rw [same, held] at unheld
      contradiction
    have stays : other ∈ (f.put name new).names := by simp [names, mem, apart]
    rw [answer_of_unknown replaced stays unheld, answer_of_unknown written mem unheld]
  · let values : Name → Int := fun other => (vars.get? other).getD 0
    have known : ∀ other ∈ f.names, vars.get? other = some (values other) := by
      intro other mem
      obtain ⟨n, bound⟩ := Option.ne_none_iff_exists'.mp fun none => unknown ⟨other, mem, none⟩
      simp [values, bound]
    have still : ∀ other ∈ (f.put name new).names, vars.get? other = some (values other) := by
      intro other mem
      rw [names] at mem
      exact known other (List.mem_of_mem_filter mem)
    have here : values name = value := by simp [values, held]
    have same : ((f.put name new).tree values).value = (f.tree values).value :=
      f.value_put (by rw [worth, here])
    rw [answer_of_known replaced still, answer_of_known written known, same]

/-- The decimal text of the value of a variable, with its minus if it has one and without parentheses, in
    the place of the name: the line has the same answer. -/
theorem answer_replaceWord (written : Writes .sum line f) (held : vars.get? name = some value) :
    answer vars (Text.replaceWord name (Decimal.ofInt value) line) = answer vars line :=
  answer_replaceWord_literal written held (Literal.ofInt value)

theorem answer_replaceWord_of_minus_three :
    let vars := (Variables.empty.assign "x".toList (-3)).assign "xy".toList 2
    Text.replaceWord "x".toList (Decimal.ofInt (-3)) "2*-x+(x)/xy".toList = "2*--3+(-3)/xy".toList ∧
      answer vars "2*--3+(-3)/xy".toList = answer vars "2*-x+(x)/xy".toList ∧
      (answer vars "2*-x+(x)/xy".toList).1 = .ok (some 5) := by
  intro vars
  have replaced : Text.replaceWord "x".toList (Decimal.ofInt (-3)) "2*-x+(x)/xy".toList =
      "2*--3+(-3)/xy".toList := by decide
  have two : Writes .factor ['2'] (.digits ['2']) := .digits (by simp) (by simp)
  have x : Writes .factor ['x'] (.word ['x']) := .word rfl
  have xy : Writes .factor ['x', 'y'] (.word ['x', 'y']) := .word rfl
  have product := Writes.product .multiply rfl (.ofFactor two) (.sign .minus x)
  have quotient := Writes.product .divide rfl (.ofFactor (.group x.toSum)) xy
  have written : Writes .sum "2*-x+(x)/xy".toList _ := .sum .add rfl (.ofTerm product) quotient
  have held : vars.get? "x".toList = some (-3) := rfl
  have same := answer_replaceWord written held
  rw [replaced] at same
  exact ⟨replaced, same, by decide⟩

end Line
end LineCalculator

import LineCalculator.Proofs.Assignment
import LineCalculator.Proofs.Expression.Meaning
import LineCalculator.Proofs.Expression.Renaming

/- Names carry no meaning. When every word of a line and of the variables gets another name, two words
   never the same one, each step of the line goes as before: where the equals sign parts it, which
   sides are words, which variable is read and which is changed. -/
namespace LineCalculator

/-- Another word for each word, and never one word for two. What it makes of a name that is no word is
    of no account. -/
structure Renaming where
  map : Name → Name
  word {name : Name} (word : name.isWord = true) : (map name).isWord = true
  injective {a b : Name} (first : a.isWord = true) (second : b.isWord = true) (same : map a = map b) :
    a = b

namespace Renaming
variable (r : Renaming)

/-- The text with its longest runs of letters replaced; all other characters stay. -/
def line (text : List Char) : List Char :=
  ((Lexeme.cut text).map (Lexeme.rename r.map)).flatMap Lexeme.text

theorem proper_rename {l : Lexeme} (proper : l.Proper) : (l.rename r.map).Proper := by
  cases l with
  | digits text => exact proper
  | word name => exact r.word proper
  | mark c => exact proper

theorem cut_line (text : List Char) :
    Lexeme.cut (r.line text) = (Lexeme.cut text).map (Lexeme.rename r.map) := by
  have joins : ∀ a b : Lexeme, (a.rename r.map).joins (b.rename r.map) = a.joins b := by
    intro a b
    cases a <;> cases b <;> rfl
  apply Lexeme.cut_flatMap_text
  · intro l mem
    obtain ⟨l, here, rfl⟩ := List.mem_map.mp mem
    exact r.proper_rename (Lexeme.cut_proper text l here)
  · apply (List.isChain_map (Lexeme.rename r.map)).mpr
    simp only [joins]
    exact Lexeme.cut_apart text

theorem line_append_mark {m : Char} (mark : (Lexeme.mark m).Proper) (first rest : List Char) :
    r.line (first ++ m :: rest) = r.line first ++ m :: r.line rest := by
  simp [line, Lexeme.cut_append_mark mark, Lexeme.rename, Lexeme.text]

theorem line_word {name : Name} (word : name.isWord = true) : r.line name = r.map name := by
  simp [line, Lexeme.cut_word word, Lexeme.rename, Lexeme.text]

theorem line_of_no_word {text : List Char} (none : ∀ name, .word name ∉ Lexeme.cut text) :
    r.line text = text := by
  have fixed : ∀ l ∈ Lexeme.cut text, l.rename r.map = l := by
    intro l mem
    cases l with
    | word name => exact absurd mem (none name)
    | digits run => rfl
    | mark c => rfl
  rw [line, List.map_congr_left fixed, List.map_id', Lexeme.cut_text]

theorem mem_line {text : List Char} {c : Char} (mem : c ∈ r.line text) : c ∈ text ∨ c.isAlpha = true := by
  obtain ⟨renamed, member, inside⟩ := List.mem_flatMap.mp mem
  obtain ⟨l, here, rfl⟩ := List.mem_map.mp member
  cases l with
  | digits run => exact .inl (Lexeme.mem_of_mem_cut here inside)
  | mark m => exact .inl (Lexeme.mem_of_mem_cut here inside)
  | word name =>
    have word := r.proper_rename (Lexeme.cut_proper text (.word name) here)
    exact .inr (Name.isAlpha_of_mem word inside)

theorem line_clear {text : List Char} (clear : ∀ c ∈ text, Text.isBlank c = false) :
    ∀ c ∈ r.line text, Text.isBlank c = false := by
  intro c mem
  rcases r.mem_line mem with old | letter
  · exact clear c old
  · exact Text.isBlank_eq_false_of_isAlpha letter

theorem no_equals_line {text : List Char} (none : '=' ∉ text) : '=' ∉ r.line text := by
  intro mem
  rcases r.mem_line mem with old | letter
  · exact none old
  · contradiction

theorem isWord_line (text : List Char) : Name.isWord (r.line text) = Name.isWord text := by
  rw [Bool.eq_iff_iff]
  constructor
  · intro word
    have single := (r.cut_line text).symm.trans (Lexeme.cut_word word)
    obtain ⟨l, cut, renamed⟩ := List.map_eq_singleton_iff.mp single
    cases l with
    | word name =>
      have proper := Lexeme.cut_proper text (.word name) (by simp [cut])
      have same : text = name := by
        rw [← Lexeme.cut_text text, cut]
        simp [Lexeme.text]
      rw [same]
      exact proper
    | digits run => contradiction
    | mark c => contradiction
  · intro word
    rw [r.line_word word]
    exact r.word word

theorem readInt?_line (text : List Char) : Decimal.readInt? (r.line text) = Decimal.readInt? text := by
  by_cases some : ∃ name, .word name ∈ Lexeme.cut text
  · obtain ⟨name, mem⟩ := some
    have renamed : .word (r.map name) ∈ Lexeme.cut (r.line text) := by
      rw [r.cut_line]
      exact List.mem_map_of_mem mem
    obtain ⟨c, old, letter⟩ := Lexeme.letter_of_word_mem_cut mem
    obtain ⟨d, new, letter'⟩ := Lexeme.letter_of_word_mem_cut renamed
    rw [Decimal.readInt?_of_letter old letter, Decimal.readInt?_of_letter new letter']
  · rw [r.line_of_no_word fun name mem => some ⟨name, mem⟩]

def rightSide : RightSide → RightSide
  | .integer value => .integer value
  | .copyOf name => .copyOf (r.map name)

def request : Request → Request
  | .expression text => .expression (r.line text)
  | .assignment target right => .assignment (r.map target) (r.rightSide right)

theorem ofText?_line (text : List Char) :
    RightSide.ofText? (r.line text) = (RightSide.ofText? text).map r.rightSide := by
  simp only [RightSide.ofText?, r.readInt?_line, r.isWord_line]
  cases Decimal.readInt? text with
  | some value => rfl
  | none =>
    by_cases word : Name.isWord text = true
    · simp [word, r.line_word word, rightSide]
    · simp [word]

theorem ofLine_line (text : List Char) :
    Request.ofLine (r.line text) = (Request.ofLine text).map r.request := by
  have equals : (Lexeme.mark '=').Proper := ⟨rfl, rfl⟩
  by_cases none : '=' ∉ text
  · rw [Request.ofLine_expression none, Request.ofLine_expression (r.no_equals_line none)]
    rfl
  · obtain ⟨target, right, rfl, clear⟩ := List.eq_append_cons_of_mem (not_not.mp none)
    rw [r.line_append_mark equals]
    by_cases more : '=' ∈ right
    · have again : '=' ∈ r.line right := by
        obtain ⟨front, back, rfl⟩ := List.append_of_mem more
        simp [r.line_append_mark equals]
      rw [Request.ofLine_of_more_equals _ more, Request.ofLine_of_more_equals _ again]
      rfl
    · rw [Request.ofLine_append_equals clear more,
        Request.ofLine_append_equals (r.no_equals_line clear) (r.no_equals_line more), r.isWord_line,
        r.ofText?_line]
      by_cases word : Name.isWord target = true
      · rw [if_pos word, if_pos word, r.line_word word]
        cases RightSide.ofText? right <;> rfl
      · rw [if_neg word, if_neg word]
        rfl

end Renaming

namespace Variables
variable {vars : Variables}

def rename (f : Name → Name) (vars : Variables) : Variables :=
  ⟨Std.ExtTreeMap.ofList (vars.table.toList.map fun (name, value) => (f name, value)) compare⟩

def Words (vars : Variables) : Prop := ∀ name value, vars.get? name = some value → name.isWord = true

theorem words_empty : empty.Words := by
  intro name value held
  simp at held

theorem Words.assign (words : vars.Words) {name : Name} (word : name.isWord = true) (value : Int) :
    (vars.assign name value).Words := by
  intro other n held
  rw [get?_assign] at held
  split at held
  · next same => rwa [← same]
  · exact words other n held

theorem mem_toList_iff {name : Name} {value : Int} :
    (name, value) ∈ vars.table.toList ↔ vars.get? name = some value :=
  Std.ExtTreeMap.mem_toList_iff_getElem?_eq_some

theorem rename_distinct (words : vars.Words) (r : Renaming) :
    (vars.table.toList.map fun (name, value) => (r.map name, value)).Pairwise
      fun a b => ¬ compare a.1 b.1 = .eq := by
  apply List.pairwise_map.mpr
  apply List.Pairwise.imp_of_mem _ Std.ExtTreeMap.distinct_keys_toList
  intro a b left right apart same
  have first := words a.1 a.2 (mem_toList_iff.mp left)
  have second := words b.1 b.2 (mem_toList_iff.mp right)
  have merged := r.injective first second (Std.LawfulEqCmp.eq_of_compare same)
  exact apart (by rw [merged]; exact Std.ReflCmp.compare_self)

theorem get?_rename_of_held (words : vars.Words) (r : Renaming) {name : Name} {value : Int}
    (held : vars.get? name = some value) : (vars.rename r.map).get? (r.map name) = some value := by
  have mem : (r.map name, value) ∈ vars.table.toList.map fun (name, value) => (r.map name, value) :=
    List.mem_map.mpr ⟨(name, value), mem_toList_iff.mpr held, rfl⟩
  exact Std.ExtTreeMap.getElem?_ofList_of_mem Std.ReflCmp.compare_self (rename_distinct words r) mem

theorem get?_rename_eq_some_iff (words : vars.Words) (r : Renaming) {name : Name} {value : Int} :
    (vars.rename r.map).get? name = some value ↔ ∃ old, r.map old = name ∧ vars.get? old = some value := by
  constructor
  · intro after
    by_cases known : ∃ old n, r.map old = name ∧ vars.get? old = some n
    · obtain ⟨old, n, rfl, before⟩ := known
      rw [get?_rename_of_held words r before] at after
      exact ⟨old, rfl, by rw [before, after]⟩
    · have absent : ((vars.table.toList.map fun (old, n) => (r.map old, n)).map
          Prod.fst).contains name = false := by
        simp only [List.map_map, List.contains_eq_mem, decide_eq_false_iff_not, List.mem_map, not_exists]
        rintro ⟨old, n⟩ ⟨mem, same⟩
        exact known ⟨old, n, same, mem_toList_iff.mp mem⟩
      have nothing : (vars.rename r.map).get? name = none :=
        Std.ExtTreeMap.getElem?_ofList_of_contains_eq_false absent
      rw [nothing] at after
      contradiction
  · rintro ⟨old, rfl, held⟩
    exact get?_rename_of_held words r held

theorem get?_rename (words : vars.Words) (r : Renaming) {name : Name} (word : name.isWord = true) :
    (vars.rename r.map).get? (r.map name) = vars.get? name := by
  apply Option.ext
  intro value
  rw [get?_rename_eq_some_iff words]
  constructor
  · rintro ⟨old, same, held⟩
    rwa [← r.injective (words old value held) word same]
  · intro held
    exact ⟨name, rfl, held⟩

theorem rename_assign (words : vars.Words) (r : Renaming) {target : Name} (word : target.isWord = true)
    (value : Int) :
    (vars.assign target value).rename r.map = (vars.rename r.map).assign (r.map target) value := by
  ext name n
  rw [get?_rename_eq_some_iff (words.assign word value), get?_assign]
  by_cases here : r.map target = name
  · rw [if_pos here]
    constructor
    · rintro ⟨old, same, held⟩
      have both := r.injective word (words.assign word value old n held) (here.trans same.symm)
      rwa [get?_assign, if_pos both] at held
    · intro held
      exact ⟨target, here, by rw [get?_assign, if_pos rfl, held]⟩
  · rw [if_neg here, get?_rename_eq_some_iff words]
    have other : ∀ {old}, r.map old = name → target ≠ old := by
      rintro old same rfl
      exact here same
    constructor
    · rintro ⟨old, same, held⟩
      rw [get?_assign, if_neg (other same)] at held
      exact ⟨old, same, held⟩
    · rintro ⟨old, same, held⟩
      exact ⟨old, same, by rw [get?_assign, if_neg (other same), held]⟩

theorem value_rename (words : vars.Words) (r : Renaming) {text : List Char}
    (clear : ∀ c ∈ text, Text.isBlank c = false) :
    (vars.rename r.map).value (r.line text) = vars.value text := by
  have order : (vars.rename r.map).postfixTokens (r.line text) =
      (vars.postfixTokens text).map (List.map (Token.rename r.map)) := by
    rw [postfixTokens, postfixTokens, Text.dropBlanks_of_clear clear,
      Text.dropBlanks_of_clear (r.line_clear clear)]
    apply Postfix.ofText_rename (r.cut_line text)
    intro name mem
    exact get?_rename words r (Lexeme.cut_proper text (.word name) mem)
  rw [value, value, order]
  cases vars.postfixTokens text with
  | error fault => rfl
  | ok out => exact Postfix.value_rename r.map out

theorem rightValue_rename (words : vars.Words) (r : Renaming) {text : List Char} {right : RightSide}
    (read : RightSide.ofText? text = some right) :
    (vars.rename r.map).rightValue (r.rightSide right) = vars.rightValue right := by
  rcases RightSide.ofText?_eq_some_iff.mp read with ⟨value, _, rfl⟩ | ⟨word, rfl⟩
  · rfl
  · simp only [Renaming.rightSide, rightValue, get?_rename words r word]

end Variables

namespace Line
variable {vars : Variables} {line : List Char}

theorem words_answer (words : vars.Words) (line : List Char) : (answer vars line).2.Words := by
  rcases answer_vars_or_assigns vars line with ⟨_, same⟩ | ⟨name, value, assigns⟩
  · rwa [same]
  · rw [answer_of_assigns assigns]
    exact words.assign assigns.1 value

theorem answer_rename (words : vars.Words) (r : Renaming) (clear : ∀ c ∈ line, Text.isBlank c = false) :
    answer (vars.rename r.map) (r.line line) =
      ((answer vars line).1, (answer vars line).2.rename r.map) := by
  simp only [answer, Text.dropBlanks_of_clear clear, Text.dropBlanks_of_clear (r.line_clear clear),
    r.ofLine_line]
  cases request : Request.ofLine line with
  | error fault => rfl
  | ok asked =>
    cases asked with
    | expression text =>
      have plain := Request.ofLine_eq_expression request
      subst plain
      simp only [Except.map, Renaming.request, Variables.value_rename words r clear]
    | assignment target right =>
      obtain ⟨word, text, _, read⟩ := Request.ofLine_eq_assignment_iff.mp request
      simp only [Except.map, Renaming.request, Variables.rightValue_rename words r read]
      cases vars.rightValue right with
      | error fault => rfl
      | ok value => simp only [Variables.rename_assign words r word]

/-- A run under other names has the same answers, line by line, and after each line the variables are
    those of the original run under the other names. -/
theorem run_rename (r : Renaming) {vars : Variables} (words : vars.Words) (lines : List (List Char))
    (clear : ∀ line ∈ lines, ∀ c ∈ line, Text.isBlank c = false) :
    run (vars.rename r.map) (lines.map r.line) =
      (run vars lines).map fun (answer, after) => (answer, after.rename r.map) := by
  induction lines generalizing vars with
  | nil => rfl
  | cons line rest ih =>
    have first := answer_rename words r (clear line (by simp))
    have later := ih (words_answer words line) fun other mem => clear other (by simp [mem])
    simp only [List.map_cons, run, first, later]

theorem run_rename_of_longer_names :
    let longer : Renaming := {
      map := fun name => 'Q' :: 'u' :: name
      word := fun {name} word => by simp_all [Name.isWord_iff]
      injective := fun _ _ same => by simpa using same }
    let vars := Variables.empty.assign "z".toList 2
    run (vars.rename longer.map) ["Qux=7".toList, "Quy=Qux".toList, "Qux*(3-Quz)".toList, "é+Quz".toList] =
        (run vars ["x=7".toList, "y=x".toList, "x*(3-z)".toList, "é+z".toList]).map
          (fun (answer, after) => (answer, after.rename longer.map)) ∧
      (run vars ["x=7".toList, "y=x".toList, "x*(3-z)".toList, "é+z".toList]).map Prod.fst =
        [.ok none, .ok none, .ok (some 7), .error .invalidExpression] := by
  intro longer vars
  have words : vars.Words := Variables.words_empty.assign rfl 2
  have alike := run_rename longer words ["x=7".toList, "y=x".toList, "x*(3-z)".toList, "é+z".toList]
    (by simp [Text.isBlank, Text.blankRanges])
  exact ⟨alike, by decide⟩

end Line
end LineCalculator

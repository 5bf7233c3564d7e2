import LineCalculator.Proofs.Expression.Meaning

/- Spelling tokens and reading them again. The lists of tokens that a text can have are those whose
   spelling reads as the same list, though the spelling need not be the text they were read from. -/
namespace LineCalculator

namespace Text

theorem dropBlanks_intercalate (texts : List (List Char)) :
    dropBlanks ([' '].intercalate texts) = dropBlanks texts.flatten := by
  induction texts with
  | nil => rfl
  | cons first rest ih =>
    cases rest with
    | nil => simp [List.intercalate]
    | cons second others =>
      have space : dropBlanks [' '] = [] := rfl
      have step : [' '].intercalate (first :: second :: others) =
          first ++ ([' '] ++ [' '].intercalate (second :: others)) := by
        simp [List.intercalate]
      have whole : (first :: second :: others).flatten = first ++ (second :: others).flatten := rfl
      rw [step, whole, dropBlanks_append, dropBlanks_append, dropBlanks_append, space, ih, List.nil_append]

end Text

namespace Token

def joins : Token → Token → Bool
  | .number _, .number _ => true
  | .reference _ _, .reference _ _ => true
  | _, _ => false

def Follows (ended : Bool) : Token → Prop
  | .operation _ => ended = true
  | .sign _ => ended = false
  | _ => True

def lexeme : Token → Lexeme
  | .number n => .digits (Decimal.ofInt n)
  | .reference name _ => .word name
  | .operation o => .mark o.symbol
  | .sign s => .mark s.symbol
  | .opening => .mark '('
  | .closing => .mark ')'

theorem text_lexeme (t : Token) : t.lexeme.text = t.spelling := by
  cases t <;> rfl

theorem joins_lexeme (a b : Token) : a.lexeme.joins b.lexeme = a.joins b := by
  cases a <;> cases b <;> rfl

end Token

/-- The tokens that some text has over the variables, told apart by whether an operand has just ended
    in front of them. -/
structure Readable (vars : Variables) (ended : Bool) (ts : List Token) : Prop where
  numbers : ∀ n, .number n ∈ ts → 0 ≤ n
  references : ∀ name value, .reference name value ∈ ts →
    name.isWord = true ∧ vars.get? name = some value
  apart : ts.IsChain fun a b => a.joins b = false
  start : ∀ t ∈ ts.head?, t.Follows ended
  places : ts.IsChain fun a b => b.Follows a.endsOperand

namespace Readable
variable {vars : Variables} {ended : Bool} {t : Token} {ts : List Token}

theorem tail (readable : Readable vars ended (t :: ts)) : Readable vars t.endsOperand ts where
  numbers n mem := readable.numbers n (List.mem_cons_of_mem t mem)
  references name value mem := readable.references name value (List.mem_cons_of_mem t mem)
  apart := (List.isChain_cons.mp readable.apart).2
  start := (List.isChain_cons.mp readable.places).1
  places := (List.isChain_cons.mp readable.places).2

theorem read_head (readable : Readable vars ended (t :: ts)) :
    (t.lexeme.read vars.get? ended).item = .ok t := by
  have place : t.Follows ended := readable.start t rfl
  cases t with
  | number n =>
    obtain ⟨m, rfl⟩ := Int.eq_ofNat_of_zero_le (readable.numbers n (by simp))
    have read : Decimal.readNat? (Decimal.ofInt m) = some m := Decimal.readNat?_toDigits m
    simp [Token.lexeme, Lexeme.read, read]
  | reference name value =>
    have held := (readable.references name value (by simp)).2
    simp [Token.lexeme, Lexeme.read, held]
  | operation o =>
    have behind : ended = true := place
    rw [behind]
    exact Token.ofMark_operation o
  | sign s =>
    have fresh : ended = false := place
    rw [fresh]
    exact Token.ofMark_sign s
  | opening => exact Token.ofMark_opening ended
  | closing => exact Token.ofMark_closing ended

theorem spells (readable : Readable vars ended ts) :
    Spells vars.get? ended (ts.map Token.lexeme) ts := by
  induction ts generalizing ended with
  | nil => exact .nil ended
  | cons t ts ih => exact .cons readable.read_head (ih readable.tail)

theorem lexeme_proper (readable : Readable vars ended ts) (mem : t ∈ ts) : t.lexeme.Proper := by
  cases t with
  | number n =>
    obtain ⟨m, rfl⟩ := Int.eq_ofNat_of_zero_le (readable.numbers n mem)
    exact (Decimal.readNat?_eq_some_iff.mp (Decimal.readNat?_toDigits m)).1
  | reference name value => exact (readable.references name value mem).1
  | operation o => exact o.symbol_proper
  | sign s => exact s.symbol_proper
  | opening => exact Lexeme.opening_proper
  | closing => exact Lexeme.closing_proper

theorem spelling_clear (readable : Readable vars ended ts) (mem : t ∈ ts) :
    ∀ c ∈ t.spelling, Text.isBlank c = false := by
  intro c inside
  have proper := readable.lexeme_proper mem
  cases t with
  | number n => exact Text.isBlank_eq_false_of_isDigit (proper.2 c inside)
  | reference name value =>
    exact Text.isBlank_eq_false_of_isAlpha (Name.isAlpha_of_mem proper inside)
  | operation o =>
    rw [List.mem_singleton.mp inside]
    cases o <;> rfl
  | sign s =>
    rw [List.mem_singleton.mp inside]
    cases s <;> rfl
  | opening =>
    rw [List.mem_singleton.mp inside]
    rfl
  | closing =>
    rw [List.mem_singleton.mp inside]
    rfl

theorem cut_spell (readable : Readable vars ended ts) :
    Lexeme.cut (Text.dropBlanks (Token.spell ts)) = ts.map Token.lexeme := by
  have clear : ∀ c ∈ (ts.map Token.spelling).flatten, Text.isBlank c = false := by
    intro c mem
    obtain ⟨spelling, member, inside⟩ := List.mem_flatten.mp mem
    obtain ⟨t, here, rfl⟩ := List.mem_map.mp member
    exact readable.spelling_clear here c inside
  have texts : (ts.map Token.spelling).flatten = (ts.map Token.lexeme).flatMap Lexeme.text := by
    simp [List.flatMap, Function.comp_def, Token.text_lexeme]
  have apart : Lexeme.Apart (ts.map Token.lexeme) := by
    apply (List.isChain_map Token.lexeme).mpr
    simpa only [Token.joins_lexeme] using readable.apart
  rw [Token.spell, Text.dropBlanks_intercalate, Text.dropBlanks_of_clear clear, texts]
  apply Lexeme.cut_flatMap_text _ apart
  intro l mem
  obtain ⟨t, here, rfl⟩ := List.mem_map.mp mem
  exact readable.lexeme_proper here

end Readable

section
variable {lookup : Lookup} {ended : Bool} {l m : Lexeme} {t u : Token}

theorem Token.nonneg_of_read {n : Int} (read : (l.read lookup ended).item = .ok (.number n)) : 0 ≤ n := by
  rcases Lexeme.read_eq_ok read with ⟨_, m, _, _, same⟩ | ⟨_, _, _, _, same⟩ | ⟨c, _, mark⟩
  · cases same
    exact Int.natCast_nonneg m
  · contradiction
  · simpa using Token.ofMark_eq_ok mark

theorem Token.bound_of_read {name : Name} {value : Int}
    (read : (l.read lookup ended).item = .ok (.reference name value)) :
    l = .word name ∧ lookup name = some value := by
  rcases Lexeme.read_eq_ok read with ⟨_, _, _, _, same⟩ | ⟨_, _, rfl, held, same⟩ | ⟨c, _, mark⟩
  · contradiction
  · cases same
    exact ⟨rfl, held⟩
  · simpa using Token.ofMark_eq_ok mark

theorem Token.follows_of_read (read : (l.read lookup ended).item = .ok t) : t.Follows ended := by
  rcases Lexeme.read_eq_ok read with ⟨_, _, _, _, rfl⟩ | ⟨_, _, _, _, rfl⟩ | ⟨c, rfl, mark⟩
  · trivial
  · trivial
  · rcases Token.ofMark_eq_ok mark with ⟨_, rfl, _, behind⟩ | ⟨_, rfl, _, fresh⟩ | ⟨rfl, _⟩ | ⟨rfl, _⟩
    · exact behind
    · exact fresh
    · trivial
    · trivial

theorem Token.joins_of_read {behind : Bool} (first : (l.read lookup ended).item = .ok t)
    (second : (m.read lookup behind).item = .ok u) : l.joins m = t.joins u := by
  have kind : ∀ {ended : Bool} {l : Lexeme} {t : Token}, (l.read lookup ended).item = .ok t →
      ∀ other, l.joins other = t.lexeme.joins other ∧ other.joins l = other.joins t.lexeme := by
    intro ended l t read other
    rcases Lexeme.read_eq_ok read with ⟨_, _, rfl, _, rfl⟩ | ⟨_, _, rfl, _, rfl⟩ | ⟨c, rfl, mark⟩
    · cases other <;> exact ⟨rfl, rfl⟩
    · cases other <;> exact ⟨rfl, rfl⟩
    · rcases Token.ofMark_eq_ok mark with ⟨_, rfl, _⟩ | ⟨_, rfl, _⟩ | ⟨rfl, _⟩ | ⟨rfl, _⟩ <;>
        cases other <;> exact ⟨rfl, rfl⟩
  rw [(kind first m).1, (kind second t.lexeme).2, Token.joins_lexeme]

end

theorem Readable.of_spells {vars : Variables} {ended : Bool} {lexemes : List Lexeme} {ts : List Token}
    (spells : Spells vars.get? ended lexemes ts) (proper : ∀ l ∈ lexemes, l.Proper)
    (apart : Lexeme.Apart lexemes) : Readable vars ended ts := by
  induction spells with
  | nil ended => exact ⟨by simp, by simp, .nil, by simp, .nil⟩
  | @cons ended l t ls ts first tail ih =>
    obtain ⟨fresh, others⟩ := List.isChain_cons.mp apart
    have rest := ih (fun l mem => proper l (List.mem_cons_of_mem _ mem)) others
    refine ⟨?_, ?_, List.isChain_cons.mpr ⟨?_, rest.apart⟩, ?_,
      List.isChain_cons.mpr ⟨rest.start, rest.places⟩⟩
    · intro n mem
      rcases List.mem_cons.mp mem with rfl | later
      · exact Token.nonneg_of_read first
      · exact rest.numbers n later
    · intro name value mem
      rcases List.mem_cons.mp mem with rfl | later
      · obtain ⟨rfl, held⟩ := Token.bound_of_read first
        exact ⟨proper (.word name) (by simp), held⟩
      · exact rest.references name value later
    · intro u head
      cases tail with
      | nil => simp at head
      | cons second _ =>
        cases head
        rw [← Token.joins_of_read first second]
        exact fresh _ rfl
    · intro u head
      cases head
      exact Token.follows_of_read first

theorem Token.readable_of_ofText {vars : Variables} {text : List Char} {ts : List Token}
    (read : Token.ofText vars.get? text = .ok ts) : Readable vars false ts :=
  .of_spells (Token.spells_of_ofText read) (Lexeme.cut_proper text) (Lexeme.cut_apart text)

end LineCalculator

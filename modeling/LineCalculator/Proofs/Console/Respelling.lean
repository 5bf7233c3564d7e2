import LineCalculator.Proofs.Console.Hearing
import LineCalculator.Proofs.Expression.Spelling

/- An expression line whose tokens can be read is a line like any other with these tokens: all that a
   console makes of it goes through them. So the line that the tokens view prints can be entered in
   place of the line it was printed for. -/
namespace LineCalculator

namespace Spells
variable {lookup : Lookup} {ended : Bool} {lexemes : List Lexeme} {ts : List Token}

theorem read_of_mem (spells : Spells lookup ended lexemes ts) {l : Lexeme} (mem : l ∈ lexemes) :
    ∃ behind t, (l.read lookup behind).item = .ok t := by
  induction spells with
  | nil ended => simp at mem
  | @cons ended l' t ls ts first tail ih =>
    rcases List.mem_cons.mp mem with rfl | later
    · exact ⟨ended, t, first⟩
    · exact ih later

end Spells

section
variable {vars : Variables} {line : List Char} {ts : List Token}

theorem Variables.tokens_of_readable (readable : Readable vars false ts) :
    vars.tokens (Token.spell ts) = .ok ts := by
  apply Token.ofText_of_spells
  rw [readable.cut_spell]
  exact readable.spells

theorem Variables.no_equals_of_tokens (read : vars.tokens line = .ok ts) : '=' ∉ Text.dropBlanks line := by
  intro mem
  have equals : (Lexeme.mark '=').Proper := ⟨rfl, rfl⟩
  have inside := Lexeme.mark_mem_cut equals mem
  obtain ⟨behind, t, refused⟩ := (Token.spells_of_ofText read).read_of_mem inside
  cases behind <;> cases refused

theorem Variables.no_command_of_tokens (read : vars.tokens line = .ok ts) : line.head? ≠ some '/' := by
  intro slash
  obtain ⟨rest, rfl⟩ := List.head?_eq_some_iff.mp slash
  have front : Text.dropBlanks ('/' :: rest) = '/' :: Text.dropBlanks rest := rfl
  have proper : (Lexeme.mark '/').Proper := Operation.divide.symbol_proper
  have spells := Token.spells_of_ofText read
  rw [front, Lexeme.cut_mark_cons proper] at spells
  cases spells with
  | cons refused tail => cases refused

theorem Variables.blank_iff_of_tokens (read : vars.tokens line = .ok ts) :
    line.all Text.isBlank = true ↔ ts = [] := by
  have spells := Token.spells_of_ofText read
  rw [← Text.dropBlanks_eq_nil_iff]
  constructor
  · intro nothing
    rw [nothing] at spells
    cases spells
    rfl
  · rintro rfl
    generalize lexemes : Lexeme.cut (Text.dropBlanks line) = cut at spells
    cases spells
    rw [← Lexeme.cut_text (Text.dropBlanks line), lexemes, List.flatMap_nil]

theorem Variables.value_of_tokens (read : vars.tokens line = .ok ts) :
    vars.value line = Postfix.ofTokens ts >>= Postfix.value := by
  rw [Variables.value, Variables.postfixTokens_of_tokens read]

theorem Line.answer_of_tokens (read : vars.tokens line = .ok ts) :
    Line.answer vars line = ((Postfix.ofTokens ts >>= Postfix.value).map some, vars) := by
  rw [Line.answer_expression vars (Variables.no_equals_of_tokens read), Variables.value_dropBlanks,
    Variables.value_of_tokens read]

end

namespace Console
variable {ω : Type} {console : Console ω} {line other : List Char} {ts : List Token}

theorem replyTokens_of_tokens {tokens : List Char → Except Fault (List Token)}
    (read : console.vars.tokens line = .ok ts) :
    console.replyTokens tokens line =
      ((tokens (Text.dropBlanks line)).map (some ∘ console.display), console.vars) := by
  simp only [replyTokens, Request.ofLine_expression (Variables.no_equals_of_tokens read)]

theorem reply_of_tokens (read : console.vars.tokens line = .ok ts) :
    console.reply line =
      (match console.view with
        | .value => (Postfix.ofTokens ts >>= Postfix.value).map (some ∘ Decimal.ofInt)
        | .tokens => .ok (some (console.display ts))
        | .postfixTokens => (Postfix.ofTokens ts).map (some ∘ console.display), console.vars) := by
  cases view : console.view with
  | value =>
    simp only [reply, view, Line.answer_of_tokens read]
    cases Postfix.ofTokens ts >>= Postfix.value <;> rfl
  | tokens =>
    simp only [reply, view, replyTokens_of_tokens read, Variables.tokens_dropBlanks, read]
    rfl
  | postfixTokens =>
    simp only [reply, view, replyTokens_of_tokens read, Variables.postfixTokens_dropBlanks,
      Variables.postfixTokens_of_tokens read]

variable [Output ω]

theorem hear_of_same_tokens (read : console.vars.tokens line = .ok ts)
    (same : console.vars.tokens other = .ok ts) : console.hear line = console.hear other := by
  have blank : line.all Text.isBlank = other.all Text.isBlank := by
    rw [Bool.eq_iff_iff, Variables.blank_iff_of_tokens read, Variables.blank_iff_of_tokens same]
  have reply : console.reply line = console.reply other :=
    (reply_of_tokens read).trans (reply_of_tokens same).symm
  simp only [hear, deliver, blank, reply, if_neg (Variables.no_command_of_tokens read),
    if_neg (Variables.no_command_of_tokens same)]

theorem hear_in_tokens_view (read : console.vars.tokens line = .ok ts) (view : console.view = .tokens)
    (plain : console.json = false) (some : line.all Text.isBlank = false) :
    console.hear line = (console.print (Token.spell ts)).map fun _ => .more := by
  have reply := reply_of_tokens read
  simp only [view, display, plain] at reply
  simp [hear, deliver, some, Variables.no_command_of_tokens read, reply]

end Console

/-- Exactly the readable lists are the tokens of some text, and each of them is what its spelling is
    read as. A line with tokens has the same tokens, postfix tokens, value and answer when it is
    replaced by what the tokens view prints for it, and every console hears both alike. -/
theorem Variables.tokens_spell (vars : Variables) :
    (∀ text ts, vars.tokens text = .ok ts → Readable vars false ts) ∧
    (∀ ts, Readable vars false ts → vars.tokens (Token.spell ts) = .ok ts) ∧
    ∀ line ts, vars.tokens line = .ok ts →
      vars.tokens (Token.spell ts) = .ok ts ∧
      vars.postfixTokens (Token.spell ts) = vars.postfixTokens line ∧
      vars.value (Token.spell ts) = vars.value line ∧
      Line.answer vars (Token.spell ts) = Line.answer vars line ∧
      ∀ {ω : Type} [Output ω] (console : Console ω), console.vars = vars →
        console.hear (Token.spell ts) = console.hear line ∧
        (console.view = .tokens → console.json = false → line.all Text.isBlank = false →
          console.hear line = (console.print (Token.spell ts)).map fun _ => .more) := by
  refine ⟨fun text ts read => Token.readable_of_ofText read, fun ts => tokens_of_readable, ?_⟩
  intro line ts read
  have again := tokens_of_readable (Token.readable_of_ofText read)
  refine ⟨again, ?_, ?_, ?_, ?_⟩
  · rw [postfixTokens_of_tokens again, postfixTokens_of_tokens read]
  · rw [value_of_tokens again, value_of_tokens read]
  · rw [Line.answer_of_tokens again, Line.answer_of_tokens read]
  · rintro ω _ console rfl
    exact ⟨Console.hear_of_same_tokens again read, Console.hear_in_tokens_view read⟩

theorem Variables.tokens_spell_signed_group :
    let vars := empty.assign "x".toList 5
    let console : Console Room := ⟨vars, .tokens, false, none⟩
    Token.spell [.sign .minus, .reference "x".toList 5, .operation .add, .opening, .number 7, .closing] =
        "- x + ( 7 )".toList ∧
      vars.tokens "- x + ( 7 )".toList = vars.tokens "-x +(0 07)".toList ∧
      Line.answer vars "- x + ( 7 )".toList = Line.answer vars "-x +(0 07)".toList ∧
      console.hear "- x + ( 7 )".toList = console.hear "-x +(0 07)".toList ∧
      (console.hear "-x +(0 07)".toList).written = Utf8.encode "- x + ( 7 )\n".toList := by
  intro vars console
  have read : vars.tokens "-x +(0 07)".toList = .ok
      [.sign .minus, .reference "x".toList 5, .operation .add, .opening, .number 7, .closing] := by
    decide
  obtain ⟨scannable, reread, alike⟩ := tokens_spell vars
  obtain ⟨_, _, _, answer, consoles⟩ := alike _ _ read
  obtain ⟨heard, printed⟩ := consoles console rfl
  refine ⟨by decide, (reread _ (scannable _ _ read)).trans read.symm, answer, heard, ?_⟩
  rw [printed rfl rfl (by decide)]
  rfl

end LineCalculator

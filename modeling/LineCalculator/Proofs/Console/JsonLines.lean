import Mathlib.Data.List.TakeWhile
import LineCalculator.Proofs.Console.Views
import LineCalculator.Proofs.Expression.JsonRoundTrip
import LineCalculator.Proofs.Text.Decoding

/- The lines of a console that shows tokens as JSON. The text of the tokens has no newline and determines them,
   so what is written is one line, and what would be written without JSON can be worked out from it. -/
namespace LineCalculator.Console
variable {ω : Type}

def IsLine (bytes : List UInt8) : Prop := bytes.getLast? = some 10 ∧ 10 ∉ bytes.dropLast

variable {text : List Char}

theorem encode_line (text : List Char) : Utf8.encode (text ++ ['\n']) = Utf8.encode text ++ [10] := by
  rw [Utf8.encode, List.flatMap_append]
  rfl

theorem isLine_encode (clear : '\n' ∉ text) : IsLine (Utf8.encode (text ++ ['\n'])) := by
  rw [encode_line]
  refine ⟨by simp, ?_⟩
  intro inside
  rw [List.dropLast_concat] at inside
  have newline := Utf8.mem_decodeLossy_of_byte (by decide) inside
  rw [Utf8.decodeLossy_encode] at newline
  exact clear newline

theorem lineText_encode (clear : '\n' ∉ text) (plain : '\r' ∉ text) :
    lineText (Utf8.encode (text ++ ['\n'])) = text := by
  have kept : text.reverse.dropWhile (fun c => c = '\n' || c = '\r') = text.reverse := by
    rw [List.dropWhile_eq_self_iff]
    intro some marked
    have mem : text.reverse[0] ∈ text := List.mem_reverse.mp (List.getElem_mem some)
    have ends : text.reverse[0] = '\n' ∨ text.reverse[0] = '\r' := by
      simpa only [Bool.or_eq_true, decide_eq_true_eq] using marked
    rcases ends with same | same
    · exact clear (same ▸ mem)
    · exact plain (same ▸ mem)
  rw [lineText, Utf8.decodeLossy_encode, List.reverse_append, List.reverse_singleton, List.singleton_append,
    List.dropWhile_cons_of_pos (by decide), kept, List.reverse_reverse]

section
variable {console : Console ω} {line : List Char}

theorem shown_eq_text (view : console.view ≠ .value) (shown : console.shown line = .ok text) :
    ∃ ts, text = console.display ts ∧ { console with json := false }.shown line = .ok (Token.spell ts) := by
  unfold Console.shown at shown ⊢
  cases stage : console.view with
  | value => contradiction
  | tokens =>
    rw [stage] at shown
    obtain ⟨ts, read, said⟩ := Except.map_eq_ok_iff.mp shown
    exact ⟨ts, said.symm, by rw [read]; rfl⟩
  | postfixTokens =>
    rw [stage] at shown
    obtain ⟨ts, order, said⟩ := Except.map_eq_ok_iff.mp shown
    exact ⟨ts, said.symm, by rw [order]; rfl⟩

theorem reply_eq_text (view : console.view ≠ .value) (reply : (console.reply line).1 = .ok (some text)) :
    ∃ ts, text = console.display ts ∧
      ({ console with json := false }.reply line).1 = .ok (some (Token.spell ts)) := by
  rcases reply_cases console.vars line with ⟨name, value, _, assigned⟩ | ⟨fault, refused⟩ | expression
  · rw [assigned console rfl] at reply
    cases reply
  · rw [refused console rfl] at reply
    cases reply
  · rw [expression console rfl] at reply
    obtain ⟨said, shown, same⟩ := Except.map_eq_ok_iff.mp reply
    cases same
    obtain ⟨ts, displayed, plain⟩ := shown_eq_text view shown
    exact ⟨ts, displayed, by rw [expression { console with json := false } rfl, plain]; rfl⟩

end

variable [Output ω]

theorem written_of_reply {console : Console ω} {line : List Char} (attends : console.Attends line)
    (reply : (console.reply line).1 = .ok (some text)) :
    (console.hear line).written = Utf8.encode (text ++ ['\n']) := by
  rw [hear_of_speech_some (speech_of_ok attends reply)]
  exact attends.steady.taken _

/-- Tokens are recovered from their JSON text, which has no character below the space. So a console that shows
    tokens as JSON answers an expression with one line, from which the tokens are recovered, and with them the
    line that it would have written without JSON. -/
theorem json_loses_nothing :
    (∀ ts, Token.ofJsonList? (Token.jsonList ts) = some ts) ∧
    (∀ ts us, Token.jsonList ts = Token.jsonList us → ts = us) ∧
    (∀ ts, ∀ c ∈ Token.jsonList ts, 0x20 ≤ c.toNat) ∧
    ∀ (console : Console ω) (line text : List Char), console.view ≠ .value → console.json = true →
      console.Attends line → (console.reply line).1 = .ok (some text) →
      IsLine (console.hear line).written ∧
      ∃ ts, Token.ofJsonList? (lineText (console.hear line).written) = some ts ∧
        ({ console with json := false }.hear line).written = Utf8.encode (Token.spell ts ++ ['\n']) := by
  refine ⟨Token.ofJsonList?_jsonList, fun ts us => Token.jsonList_injective, Token.printable_jsonList, ?_⟩
  intro console line text view json attends reply
  obtain ⟨ts, shown, plain⟩ := reply_eq_text view reply
  have printable : ∀ c ∈ text, 0x20 ≤ c.toNat := by
    rw [shown, display, json]
    exact Token.printable_jsonList ts
  have noNewline : '\n' ∉ text := fun inside => absurd (printable _ inside) (by decide)
  have noReturn : '\r' ∉ text := fun inside => absurd (printable _ inside) (by decide)
  rw [written_of_reply attends reply]
  refine ⟨isLine_encode noNewline, ts, ?_, ?_⟩
  · rw [lineText_encode noNewline noReturn, shown, display, json]
    exact Token.ofJsonList?_jsonList ts
  · exact written_of_reply ⟨attends.visible, attends.plain, attends.steady⟩ plain

theorem json_loses_nothing_of_quotes :
    let console : Console Room := ⟨Variables.empty.assign "x".toList 5, .postfixTokens, true, none⟩
    let tokens : List Token := [.reference "\"\x7d]\\\n".toList (-3), .sign .minus]
    let line := "2 * (x - 3)".toList
    Token.ofJsonList? (Token.jsonList tokens) = some tokens ∧
      console.Attends line ∧ (∃ text, (console.reply line).1 = .ok (some text)) ∧
      IsLine (console.hear line).written ∧
      ∃ ts, Token.ofJsonList? (lineText (console.hear line).written) = some ts ∧
        ({ console with json := false }.hear line).written = Utf8.encode (Token.spell ts ++ ['\n']) := by
  intro console tokens line
  obtain ⟨recovered, _, _, lines⟩ := json_loses_nothing (ω := Room)
  have attends : console.Attends line := ⟨by decide, by decide, Room.steady_none⟩
  refine ⟨recovered tokens, attends, ⟨_, rfl⟩, ?_⟩
  exact lines console line _ (by decide) rfl attends rfl

end LineCalculator.Console

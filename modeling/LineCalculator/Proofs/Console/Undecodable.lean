import LineCalculator.Proofs.Console.Lasting
import LineCalculator.Proofs.Console.Minutes
import LineCalculator.Proofs.Console.WideLines
import LineCalculator.Proofs.Text.Decoding

/- Lines whose bytes are those of no text. Decoding leaves a replacement in such a line, so the line is refused
   by one message and changes nothing; and an input without these lines is heard as the input with them, but for
   the messages. -/
namespace LineCalculator

namespace Console
open Utf8 (IllFormed)

/-- What may be said to a line of ill-formed bytes. -/
def refusals (piece : List UInt8) : List String :=
  if piece.head? = some 0x2F then ["Unknown command"]
  else if 0x3D ∈ piece then ["Invalid identifier", "Invalid assignment"]
  else ["Invalid expression"]

section
variable {piece : List UInt8} {c : Char}

theorem lineText_append_ends (piece : List UInt8) :
    ∃ ends, Utf8.decodeLossy piece = lineText piece ++ ends ∧ ∀ c ∈ ends, c = '\n' ∨ c = '\r' := by
  let isEnd : Char → Bool := fun c => c = '\n' || c = '\r'
  refine ⟨((Utf8.decodeLossy piece).reverse.takeWhile isEnd).reverse, ?_, ?_⟩
  · rw [lineText, ← List.reverse_append, List.takeWhile_append_dropWhile, List.reverse_reverse]
  · intro c mem
    have mark := List.all_eq_true.mp List.all_takeWhile c (List.mem_reverse.mp mem)
    simpa [isEnd] using mark

theorem mem_lineText_iff (newline : c ≠ '\n') (carriage : c ≠ '\r') :
    c ∈ lineText piece ↔ c ∈ Utf8.decodeLossy piece := by
  obtain ⟨ends, parts, only⟩ := lineText_append_ends piece
  have outside : c ∉ ends := by
    intro mem
    rcases only c mem with same | same
    · exact newline same
    · exact carriage same
  simp [parts, outside]

theorem head?_lineText (some : lineText piece ≠ []) :
    (lineText piece).head? = (Utf8.decodeLossy piece).head? := by
  obtain ⟨ends, parts, _⟩ := lineText_append_ends piece
  rw [parts, List.head?_append_of_ne_nil _ some]

theorem equals_mem_lineText_iff : '=' ∈ lineText piece ↔ 0x3D ∈ piece := by
  rw [mem_lineText_iff (by decide) (by decide)]
  constructor
  · intro mem
    obtain ⟨byte, inside, same⟩ := Utf8.mem_decodeLossy_ascii (by decide) (by decide) mem
    obtain rfl : byte = 0x3D := UInt8.toNat_inj.mp same.symm
    exact inside
  · exact Utf8.mem_decodeLossy_of_byte (by decide)

variable (bad : IllFormed piece)
include bad

theorem replacement_mem_lineText : Utf8.replacement ∈ lineText piece :=
  (mem_lineText_iff (by decide) (by decide)).mpr (Utf8.replacement_mem_of_illFormed bad)

theorem slash_first_iff : (lineText piece).head? = some '/' ↔ piece.head? = some 0x2F := by
  rw [head?_lineText (List.ne_nil_of_mem (replacement_mem_lineText bad))]
  have slash : 0 < (0x2F : UInt8).toNat ∧ (0x2F : UInt8).toNat < 0x80 := by decide
  exact Utf8.head?_decodeLossy_iff slash.1 slash.2 piece

theorem lineText_of_illFormed :
    (lineText piece).all Text.isBlank = false ∧ lineText piece ≠ "/help".toList ∧
      lineText piece ≠ "/exit".toList := by
  have mem := replacement_mem_lineText bad
  refine ⟨?_, ?_, ?_⟩
  · rw [List.all_eq_false]
    exact ⟨_, mem, by decide⟩
  · intro help
    rw [help] at mem
    contradiction
  · intro exit
    rw [exit] at mem
    contradiction

section
variable {ω : Type} (console : Console ω)

theorem reply_of_illFormed :
    ∃ fault, console.reply (lineText piece) = (.error fault, console.vars) ∧
      if 0x3D ∈ piece then fault = .invalidIdentifier ∨ fault = .invalidAssignment
      else fault = .invalidExpression := by
  have reply := reply_of_wide (replacement_mem_lineText bad) (by decide) (by decide) console
  simpa only [equals_mem_lineText_iff] using reply

theorem heard_of_illFormed : console.vars.heard (lineText piece) = console.vars := by
  unfold Variables.heard
  split
  · rfl
  · obtain ⟨fault, reply, _⟩ := reply_of_illFormed bad console
    rw [← reply_vars, reply]

theorem speech_of_illFormed :
    ∃ message ∈ refusals piece, console.speech (lineText piece) = some message.toList := by
  obtain ⟨visible, help, exit⟩ := lineText_of_illFormed bad
  have seen : ¬ (lineText piece).all Text.isBlank = true := by simp [visible]
  unfold speech refusals
  rw [if_neg seen]
  by_cases command : piece.head? = some 0x2F
  · rw [if_pos ((slash_first_iff bad).mpr command), if_pos command, commandText, if_neg help, if_neg exit]
    exact ⟨_, List.mem_singleton_self _, rfl⟩
  · rw [if_neg fun slash => command ((slash_first_iff bad).mp slash), if_neg command]
    obtain ⟨fault, reply, cause⟩ := reply_of_illFormed bad console
    rw [reply]
    split
    · next equals =>
      rw [if_pos equals] at cause
      rcases cause with rfl | rfl
      · exact ⟨_, List.mem_cons_self .., rfl⟩
      · exact ⟨_, List.mem_cons_of_mem _ (List.mem_singleton_self _), rfl⟩
    · next plain =>
      rw [if_neg plain] at cause
      exact ⟨_, List.mem_singleton_self _, cause ▸ rfl⟩

theorem demand_of_illFormed : Demand.ofLine (lineText piece) = .more := by
  rw [Demand.ofLine, if_neg (lineText_of_illFormed bad).2.2]

end

end

variable {ω : Type} [Output ω]

/-- The line is answered by one message, only the output changes, and more lines are wanted. -/
structure FailsAlone (console : Console ω) (piece : List UInt8) : Prop where
  written : ∃ message ∈ refusals piece,
    (console.hear (lineText piece)).written = Utf8.encode (message.toList ++ ['\n'])
  after : ∃ output, Output.Lasting output ∧
    (console.hear (lineText piece)).console = { console with output := output }
  result : (console.hear (lineText piece)).result = .ok .more

theorem failsAlone_of_illFormed {console : Console ω} (lasting : Output.Lasting console.output)
    {piece : List UInt8} (bad : IllFormed piece) : console.FailsAlone piece := by
  refine ⟨?_, ?_, ?_⟩
  · obtain ⟨message, one, said⟩ := speech_of_illFormed bad console
    refine ⟨message, one, ?_⟩
    rw [written_of_lasting lasting, said, Option.elim_some]
  · obtain ⟨output, still, after⟩ := console_of_lasting lasting (lineText piece)
    exact ⟨output, still, by rw [after, heard_of_illFormed bad]⟩
  · rw [result_of_lasting lasting, demand_of_illFormed bad]

def Minutes.clean (minutes : Minutes) : Minutes :=
  { minutes with answers := minutes.answers.filter fun answer => ¬ IllFormed answer.1 }

theorem answer_of_illFormed {ending : Ending} {console : Console ω} (lasting : Output.Lasting console.output)
    {pieces : List (List UInt8)} {answer : List UInt8 × List UInt8}
    (mem : answer ∈ (console.minutes ending pieces).answers) (bad : IllFormed answer.1) :
    ∃ message ∈ refusals answer.1, answer.2 = Utf8.encode (message.toList ++ ['\n']) := by
  induction console, pieces using run_induction (ω := ω) ending with
  | nil console => cases ending <;> simp [minutes] at mem
  | skipped console piece rest skipped => simp [minutes_of_skipped _ _ skipped] at mem
  | more console piece rest heard more ih =>
    rw [minutes_of_more heard more] at mem
    rcases List.mem_cons.mp mem with rfl | later
    · exact (failsAlone_of_illFormed lasting bad).written
    · obtain ⟨output, still, after⟩ := console_of_lasting lasting (lineText piece)
      exact ih (by rw [after]; exact still) later
  | stop console piece rest heard stop =>
    rw [minutes_of_stop heard stop] at mem
    obtain rfl := List.mem_singleton.mp mem
    exact (failsAlone_of_illFormed lasting bad).written

def wellFormed (pieces : List (List UInt8)) : List (List UInt8) :=
  pieces.filter fun piece => ¬ IllFormed piece

/-- Of the well-formed pieces the second console makes what the first makes of all pieces, but for the answers
    to the ill-formed ones. -/
structure Cleans (ending : Ending) (first second : Console ω) (pieces : List (List UInt8)) : Prop where
  vars : (second.readPieces ending (wellFormed pieces)).1.console.vars =
    (first.readPieces ending pieces).1.console.vars
  result : (second.readPieces ending (wellFormed pieces)).1.result = (first.readPieces ending pieces).1.result
  minutes : second.minutes ending (wellFormed pieces) = (first.minutes ending pieces).clean

namespace Matches
variable {ending : Ending} {first second : Console ω} {piece : List UInt8} {rest : List (List UInt8)}

theorem cleans_nil (matched : first.Matches second) : Cleans ending first second [] := by
  cases ending with
  | broken => exact ⟨matched.vars.symm, rfl, rfl⟩
  | closed =>
    have written : (first.print goodbye.toList).written = (second.print goodbye.toList).written :=
      (matched.left.steady.taken _).trans (matched.right.steady.taken _).symm
    have failure := (matched.left.steady.failure (Utf8.encode (goodbye.toList ++ ['\n']))).trans
      (matched.right.steady.failure (Utf8.encode (goodbye.toList ++ ['\n']))).symm
    refine ⟨matched.vars.symm, ?_, ?_⟩
    · simp [wellFormed, readPieces, print, write, failure]
    · simp [wellFormed, Console.minutes, Minutes.clean, written]

theorem cleans_skipped (matched : first.Matches second)
    (skipped : ending = .broken ∧ Text.isComplete isNewline piece = false) :
    Cleans ending first second [piece] := by
  have broken : ending = .broken := skipped.1
  by_cases bad : IllFormed piece
  · have none : wellFormed [piece] = [] := by simp [wellFormed, bad]
    refine ⟨?_, ?_, ?_⟩
    · simp [none, readPieces, skipped, matched.vars]
    · simp [none, readPieces, skipped]
    · rw [none, minutes_of_skipped first [] skipped, broken]
      rfl
  · have one : wellFormed [piece] = [piece] := by simp [wellFormed, bad]
    refine ⟨?_, ?_, ?_⟩
    · simp [one, readPieces, skipped, matched.vars]
    · simp [one, readPieces, skipped]
    · rw [one, minutes_of_skipped first [] skipped, minutes_of_skipped second [] skipped]
      rfl

theorem pass (matched : first.Matches second) (bad : IllFormed piece) :
    (first.hear (lineText piece)).console.Matches second := by
  obtain ⟨output, still, after⟩ := (failsAlone_of_illFormed matched.left bad).after
  rw [after]
  exact ⟨matched.vars, matched.view, matched.json, still, matched.right⟩

theorem cleans_cons (matched : first.Matches second)
    (heard : ¬(ending = .broken ∧ Text.isComplete isNewline piece = false))
    (later : ∀ {one other : Console ω}, one.Matches other → Cleans ending one other rest) :
    Cleans ending first second (piece :: rest) := by
  by_cases bad : IllFormed piece
  · have dropped : wellFormed (piece :: rest) = wellFormed rest := by simp [wellFormed, bad]
    have more := (failsAlone_of_illFormed matched.left bad).result
    obtain ⟨vars, result, minutes⟩ := later (matched.pass bad)
    refine ⟨?_, ?_, ?_⟩
    · rw [dropped, readPieces_of_more heard more, vars]
    · rw [dropped, readPieces_of_more heard more, result]
    · rw [dropped, minutes_of_more heard more, minutes]
      simp [Minutes.clean, bad]
  · have kept : wellFormed (piece :: rest) = piece :: wellFormed rest := by simp [wellFormed, bad]
    have same := matched.result (lineText piece)
    have written := matched.written (lineText piece)
    by_cases more : (first.hear (lineText piece)).result = .ok .more
    · have more' := same.symm.trans more
      obtain ⟨vars, result, minutes⟩ := later (matched.hear (lineText piece))
      refine ⟨?_, ?_, ?_⟩
      · rw [kept, readPieces_of_more heard more, readPieces_of_more heard more', vars]
      · rw [kept, readPieces_of_more heard more, readPieces_of_more heard more', result]
      · rw [kept, minutes_of_more heard more, minutes_of_more heard more', minutes, written]
        simp [Minutes.clean, bad]
    · have stop : (second.hear (lineText piece)).result ≠ .ok .more := same ▸ more
      refine ⟨?_, ?_, ?_⟩
      · rw [kept, readPieces_of_stop heard more, readPieces_of_stop heard stop]
        exact (matched.hear (lineText piece)).vars.symm
      · rw [kept, readPieces_of_stop heard more, readPieces_of_stop heard stop]
        simp only [Effect.map, same]
      · rw [kept, minutes_of_stop heard more, minutes_of_stop heard stop, written]
        simp [Minutes.clean, bad]

theorem cleans (matched : first.Matches second) (ending : Ending) (bytes : List UInt8) :
    Cleans ending first second (Text.cutAfter isNewline bytes) := by
  -- Only the last piece may be incomplete, so an ill-formed piece is heard or stands last.
  induction bytes using Text.cut_induction isNewline generalizing first second with
  | nil => exact matched.cleans_nil
  | rest bytes some clear =>
    rw [Text.cutAfter_of_clear some clear]
    by_cases skipped : ending = .broken ∧ Text.isComplete isNewline bytes = false
    · exact matched.cleans_skipped skipped
    · exact matched.cleans_cons skipped cleans_nil
  | piece bytes newline others clear mark ih =>
    rw [Text.cutAfter_append_end clear mark]
    have complete := Text.isComplete_append_end bytes mark
    exact matched.cleans_cons (by simp [complete]) ih

end Matches

/-- A line of ill-formed bytes is answered by one message that its bytes tell, and is otherwise without effect;
    the console goes on with the rest of the input. So when all such lines are taken out of an input, the
    variables, the result and all other answers stay as they are. -/
theorem illFormed_fails_alone (console : Console ω) (lasting : Output.Lasting console.output) :
    (∀ piece, IllFormed piece →
      (lineText piece).all Text.isBlank = false ∧ lineText piece ≠ "/help".toList ∧
        lineText piece ≠ "/exit".toList ∧ console.FailsAlone piece) ∧
    (∀ line rest ending, 10 ∉ line → IllFormed (line ++ [10]) →
      let first := console.hear (lineText (line ++ [10]))
      let later := first.console.read rest ending
      console.read (line ++ 10 :: rest) ending =
        ({ later.1 with written := first.written ++ later.1.written }, later.2)) ∧
    ∀ bytes ending,
      let minutes := console.minutes ending (Text.cutAfter isNewline bytes)
      let whole := (console.read bytes ending).1
      let part := (console.read (wellFormed (Text.cutAfter isNewline bytes)).flatten ending).1
      whole.written = minutes.written ∧ part.written = minutes.clean.written ∧
        part.console.vars = whole.console.vars ∧ part.result = whole.result ∧
        ∀ answer ∈ minutes.answers, IllFormed answer.1 →
          ∃ message ∈ refusals answer.1, answer.2 = Utf8.encode (message.toList ++ ['\n']) := by
  refine ⟨?_, ?_, ?_⟩
  · intro piece bad
    obtain ⟨visible, help, exit⟩ := lineText_of_illFormed bad
    exact ⟨visible, help, exit, failsAlone_of_illFormed lasting bad⟩
  · intro line rest ending clear bad first later
    have within : ∀ byte ∈ line, isNewline byte = false := fun byte mem =>
      decide_eq_false fun same => clear (same ▸ mem)
    have complete : Text.isComplete isNewline (line ++ [10]) = true := Text.isComplete_append_end line rfl
    rw [read, Text.cutAfter_append_end within rfl,
      readPieces_of_more (by simp [complete]) (failsAlone_of_illFormed lasting bad).result]
    rfl
  · intro bytes ending minutes whole part
    obtain ⟨vars, result, clean⟩ := (Matches.self lasting).cleans ending bytes
    have again : part = (console.readPieces ending (wellFormed (Text.cutAfter isNewline bytes))).1 := by
      simp only [part, read, wellFormed, cutAfter_filter]
    refine ⟨readPieces_written _ _ _, ?_, ?_, ?_, ?_⟩
    · rw [again, readPieces_written, clean]
    · rw [again, vars]
      rfl
    · rw [again, result]
      rfl
    · exact fun answer mem bad => answer_of_illFormed lasting mem bad

theorem illFormed_fails_alone_between_lines :
    let console : Console Room := start .value false none
    let bytes := Utf8.encode "x = 2\n".toList ++ [0xFF, 10] ++ Utf8.encode "x\n".toList
    let whole := (console.read bytes .closed).1
    let part := (console.read (wellFormed (Text.cutAfter isNewline bytes)).flatten .closed).1
    whole.written = Utf8.encode "Invalid expression\n2\nBye!\n".toList ∧
      part.written = Utf8.encode "2\nBye!\n".toList ∧ part.console.vars = whole.console.vars ∧
      IllFormed [0x2F, 0xFF, 10] ∧ console.FailsAlone [0x2F, 0xFF, 10] ∧
      (console.read (0x2F :: 0xFF :: 10 :: bytes) .closed).2 =
        ((console.hear (lineText [0x2F, 0xFF, 10])).console.read bytes .closed).2 := by
  intro console bytes whole part
  have bad : IllFormed [0x2F, 0xFF, 10] := by decide
  obtain ⟨alone, further, cleaned⟩ := illFormed_fails_alone console Room.lasting_none
  obtain ⟨written, clean, vars, _, _⟩ := cleaned bytes .closed
  refine ⟨written.trans rfl, clean.trans rfl, vars, bad, (alone _ bad).2.2.2, ?_⟩
  have goes := further [0x2F, 0xFF] bytes .closed (by decide) bad
  exact (congrArg Prod.snd goes).trans rfl

end Console
end LineCalculator

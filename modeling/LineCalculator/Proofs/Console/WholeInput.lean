import Mathlib.Data.List.DropRight
import LineCalculator.Proofs.Console.Hearing
import LineCalculator.Proofs.Text.Lossy

/- What a console makes of a whole input. The bytes may as well be decoded at once and the text be cut
   into lines: these are heard in order, up to and including the first that wants no more. -/
namespace LineCalculator

/-- The text, decoded at once, between its newlines, without the carriage returns at the end of each piece.
    What stands behind the last newline is a line, unless it is empty or a broken input ends there. -/
def Ending.lines (ending : Ending) (bytes : List UInt8) : List (List Char) :=
  let pieces := (Utf8.decodeLossy bytes).splitOn '\n'
  let whole := if ending = .broken ∨ pieces.getLast? = some [] then pieces.dropLast else pieces
  whole.map (List.rdropWhile (· = '\r'))

/-- The bytes of an input behind its first newlines. -/
def bytesAfter (count : Nat) (bytes : List UInt8) : List UInt8 :=
  [10].intercalate ((bytes.splitOn 10).drop count)

def Effect.wantsMore {ω : Type} (effect : Effect ω Demand) : Bool :=
  match effect.result with
  | .ok .more => true
  | _ => false

namespace Console
variable {ω : Type} [Output ω]

def hearEach (console : Console ω) : List (List Char) → List (Effect ω Demand)
  | [] => []
  | line :: rest =>
    let first := console.hear line
    first :: first.console.hearEach rest

/-- The effect of a whole input and the bytes that are left of it: the lines that want more and the first
    that does not; without such a line, the goodbye of a closed input or the fault of a broken one. -/
def readWhole (console : Console ω) (bytes : List UInt8) (ending : Ending) :
    Effect ω Unit × List UInt8 :=
  let lines := ending.lines bytes
  let effects := console.hearEach lines
  let passed := effects.takeWhile Effect.wantsMore
  let written := passed.flatMap Effect.written
  match effects.dropWhile Effect.wantsMore with
  | last :: _ =>
    (⟨written ++ last.written, last.console, last.result.map fun _ => ()⟩,
      bytesAfter (passed.length + 1) bytes)
  | [] =>
    let after := console.heardAll lines
    match ending with
    | .closed =>
      let farewell := Output.put after.output (Utf8.encode "Bye!\n".toList)
      (⟨written ++ farewell.taken, { after with output := farewell.output },
        match farewell.failure with
        | none => .ok ()
        | some reason => .error (.io reason)⟩, [])
    | .broken => (⟨written, after, .error readFailed⟩, [])

end Console

theorem Utf8.decodeLossy_append_newline (before after : List UInt8) :
    decodeLossy (before ++ 10 :: after) = decodeLossy before ++ '\n' :: decodeLossy after :=
  decodeLossy_append_ascii before after (by decide)

theorem Utf8.newline_not_mem_decodeLossy {bytes : List UInt8}
    (clear : ∀ byte ∈ bytes, Console.isNewline byte = false) : '\n' ∉ decodeLossy bytes := by
  intro mem
  obtain ⟨byte, inside, same⟩ := mem_decodeLossy_ascii (by decide) (by decide) mem
  have newline : byte = 10 := UInt8.toNat_inj.mp same.symm
  simpa [Console.isNewline, newline] using clear byte inside

theorem Text.rdropWhile_of_clear {text : List Char} (clear : '\n' ∉ text) :
    text.rdropWhile (fun c => c = '\n' || c = '\r') = text.rdropWhile (· = '\r') := by
  induction text using List.reverseRecOn with
  | nil => rfl
  | append_singleton text c ih =>
    simp only [List.mem_append, List.mem_singleton, not_or] at clear
    rw [List.rdropWhile_concat, List.rdropWhile_concat, ih clear.1]
    simp [Ne.symm clear.2]

theorem Console.lineText_of_clear {bytes : List UInt8} (clear : '\n' ∉ Utf8.decodeLossy bytes) :
    lineText bytes = (Utf8.decodeLossy bytes).rdropWhile (· = '\r') :=
  Text.rdropWhile_of_clear clear

namespace Ending
variable {bytes : List UInt8}

theorem lines_of_clear (some : bytes ≠ []) (clear : ∀ byte ∈ bytes, Console.isNewline byte = false)
    (ending : Ending) :
    ending.lines bytes = match ending with
      | .closed => [Console.lineText bytes]
      | .broken => [] := by
  have plain := Utf8.newline_not_mem_decodeLossy clear
  have pieces : (Utf8.decodeLossy bytes).splitOn '\n' = [Utf8.decodeLossy bytes] :=
    List.splitOnP_eq_singleton fun _ mem => beq_eq_false_iff_ne.mpr (ne_of_mem_of_not_mem mem plain)
  have text := Utf8.decodeLossy_ne_nil some
  cases ending with
  | closed => simp [lines, pieces, text, Console.lineText_of_clear plain]
  | broken => simp [lines, pieces]

theorem lines_append_newline (clear : ∀ byte ∈ bytes, Console.isNewline byte = false)
    (rest : List UInt8) (ending : Ending) :
    ending.lines (bytes ++ 10 :: rest) =
      Console.lineText (bytes ++ [10]) :: ending.lines rest := by
  have plain := Utf8.newline_not_mem_decodeLossy clear
  have pieces : (Utf8.decodeLossy (bytes ++ 10 :: rest)).splitOn '\n' =
      Utf8.decodeLossy bytes :: (Utf8.decodeLossy rest).splitOn '\n' := by
    rw [Utf8.decodeLossy_append_newline]
    exact List.splitOnP_append_cons_of_forall_mem
      (fun _ mem => beq_eq_false_iff_ne.mpr (ne_of_mem_of_not_mem mem plain)) _ (beq_self_eq_true _) _
  have text : Console.lineText (bytes ++ [10]) = (Utf8.decodeLossy bytes).rdropWhile (· = '\r') := by
    rw [← Console.lineText_of_clear plain, Console.lineText, Utf8.decodeLossy_append_newline]
    exact List.rdropWhile_concat_pos _ _ _ rfl
  have others := List.splitOn_ne_nil '\n' (Utf8.decodeLossy rest)
  obtain ⟨first, later, same⟩ := List.exists_cons_of_ne_nil others
  simp only [lines, pieces, text, same, List.getLast?_cons_cons, List.dropLast_cons_cons]
  split <;> rfl

end Ending

theorem bytesAfter_zero (bytes : List UInt8) : bytesAfter 0 bytes = bytes := by
  rw [bytesAfter, List.drop_zero, List.intercalate_splitOn]

namespace Console
variable {ω : Type} [Output ω] {bytes rest piece : List UInt8} {ending : Ending}

/-- A piece that is cut off in front of the rest, as the first of the lines. -/
structure Leads (ending : Ending) (bytes piece rest : List UInt8) : Prop where
  cut : Text.cutAfter isNewline bytes = piece :: Text.cutAfter isNewline rest
  lines : ending.lines bytes = lineText piece :: ending.lines rest
  behind (count : Nat) : bytesAfter (count + 1) bytes = bytesAfter count rest

theorem leads_of_newline (clear : ∀ byte ∈ bytes, isNewline byte = false) (rest : List UInt8)
    (ending : Ending) : Leads ending (bytes ++ 10 :: rest) (bytes ++ [10]) rest := by
  refine ⟨Text.cutAfter_append_end clear rfl rest, Ending.lines_append_newline clear rest ending, ?_⟩
  intro count
  have pieces : (bytes ++ 10 :: rest).splitOn 10 = bytes :: rest.splitOn 10 :=
    List.splitOnP_append_cons_of_forall_mem clear _ rfl _
  rw [bytesAfter, pieces, List.drop_succ_cons, bytesAfter]

theorem leads_of_clear (some : bytes ≠ []) (clear : ∀ byte ∈ bytes, isNewline byte = false) :
    Leads .closed bytes bytes [] := by
  refine ⟨Text.cutAfter_of_clear some clear, Ending.lines_of_clear some clear .closed, ?_⟩
  intro count
  have pieces : bytes.splitOn 10 = [bytes] := List.splitOnP_eq_singleton clear
  rw [bytesAfter, pieces, List.drop_succ_cons, List.drop_nil, bytesAfter, List.splitOn_nil]
  cases count <;> simp

theorem readWhole_of_more {console : Console ω} (leads : Leads ending bytes piece rest)
    (more : (console.hear (lineText piece)).result = .ok .more) :
    console.readWhole bytes ending =
      let later := (console.hear (lineText piece)).console.readWhole rest ending
      ({ later.1 with written := (console.hear (lineText piece)).written ++ later.1.written },
        later.2) := by
  have wants : (console.hear (lineText piece)).wantsMore = true := by simp [Effect.wantsMore, more]
  simp only [readWhole, leads.lines, hearEach, List.takeWhile_cons, List.dropWhile_cons, wants, ↓reduceIte,
    List.flatMap_cons, List.length_cons, heardAll, List.foldl_cons]
  split
  · rw [leads.behind, List.append_assoc]
  · cases ending with
    | closed => rw [List.append_assoc]
    | broken => rfl

theorem readWhole_of_stop {console : Console ω} (leads : Leads ending bytes piece rest)
    (stop : (console.hear (lineText piece)).wantsMore = false) :
    console.readWhole bytes ending = ((console.hear (lineText piece)).map fun _ => (), rest) := by
  simp [readWhole, leads.lines, hearEach, stop, leads.behind, bytesAfter_zero, Effect.map]

theorem read_cons (console : Console ω) (leads : Leads ending bytes piece rest)
    (heard : ¬(ending = .broken ∧ Text.isComplete isNewline piece = false))
    (agree : ∀ after : Console ω,
      after.read rest ending = (after.readWhole rest ending).map id List.length) :
    console.read bytes ending = (console.readWhole bytes ending).map id List.length := by
  by_cases more : (console.hear (lineText piece)).result = .ok .more
  · have tail := agree (console.hear (lineText piece)).console
    rw [read] at tail
    rw [read, leads.cut, readPieces_of_more heard more, tail, readWhole_of_more leads more]
    rfl
  · have stop : (console.hear (lineText piece)).wantsMore = false := by
      unfold Effect.wantsMore
      split
      · contradiction
      · rfl
    rw [read, leads.cut, readPieces_of_stop heard more, Text.cutAfter_flatten, readWhole_of_stop leads stop]
    rfl

theorem read_nil (console : Console ω) (ending : Ending) :
    console.read [] ending = (console.readWhole [] ending).map id List.length := by
  cases ending with
  | closed => rfl
  | broken => rfl

/-- Reading an input line by line comes to hearing the lines of the whole, and what is unread are the
    bytes behind the last line that was taken. -/
theorem read_eq_readWhole (console : Console ω) (bytes : List UInt8) (ending : Ending) :
    console.read bytes ending = (console.readWhole bytes ending).map id List.length := by
  induction bytes using Text.cut_induction isNewline generalizing console with
  | nil => exact console.read_nil ending
  | rest bytes some clear =>
    cases ending with
    | closed =>
      exact read_cons console (leads_of_clear some clear) (by simp) fun after => after.read_nil .closed
    | broken =>
      have front := Text.cutAfter_of_clear some clear
      have open_ := Text.isComplete_of_clear clear
      have lines := Ending.lines_of_clear some clear .broken
      simp [read, front, readPieces, open_, readWhole, lines, hearEach, heardAll]
  | piece bytes newline rest clear mark agree =>
    have same : newline = 10 := of_decide_eq_true mark
    subst same
    have complete := Text.isComplete_append_end bytes mark
    exact read_cons console (leads_of_newline clear rest ending) (by simp [complete]) agree

end Console
end LineCalculator

import Mathlib.Data.List.TakeWhile
import LineCalculator.Proofs.Console.Hearing

/- Blanks are invisible outside commands. A line is passed over when nothing is left of it between its ends,
   which is when nothing is left of it at all; every other line is answered as its text without blanks. -/
namespace LineCalculator

namespace Text

def trim (text : List Char) : List Char :=
  ((text.dropWhile isBlank).reverse.dropWhile isBlank).reverse

theorem all_dropWhile_isBlank (text : List Char) : (text.dropWhile isBlank).all isBlank = text.all isBlank := by
  have front : (text.takeWhile isBlank).all isBlank = true := List.all_takeWhile
  calc (text.dropWhile isBlank).all isBlank
      = ((text.takeWhile isBlank).all isBlank && (text.dropWhile isBlank).all isBlank) := by
        rw [front, Bool.true_and]
    _ = text.all isBlank := by rw [← List.all_append, List.takeWhile_append_dropWhile]

theorem trim_eq_nil_iff (text : List Char) : trim text = [] ↔ dropBlanks text = [] := by
  rw [dropBlanks_eq_nil_iff, trim, List.reverse_eq_nil_iff, List.dropWhile_eq_nil_iff, ← List.all_eq_true,
    List.all_reverse, all_dropWhile_isBlank]

end Text

namespace Console
variable {ω : Type}

def skips (line : List Char) : Bool := (Text.trim line).isEmpty

theorem skips_iff (line : List Char) : skips line = true ↔ Text.dropBlanks line = [] := by
  rw [skips, List.isEmpty_iff, Text.trim_eq_nil_iff]

theorem reply_dropBlanks (console : Console ω) (line : List Char) :
    console.reply (Text.dropBlanks line) = console.reply line := by
  simp only [reply, replyTokens, Line.answer_dropBlanks, Text.dropBlanks_dropBlanks]

variable [Output ω]

/-- Hears a line by way of a reply that is given only the text of the line. -/
def hearThrough (console : Console ω)
    (reply : List Char → Except Fault (Option (List Char)) × Variables) (line : List Char) : Effect ω Demand :=
  if skips line then ⟨[], console, .ok .more⟩
  else if line.head? = some '/' then console.obey line
  else
    let (said, vars) := reply (Text.dropBlanks line)
    console.deliver said vars

theorem hear_eq_hearThrough (console : Console ω) (line : List Char) :
    console.hear line = console.hearThrough console.reply line := by
  have blank : line.all Text.isBlank = skips line := by
    rw [Bool.eq_iff_iff, skips_iff, Text.dropBlanks_eq_nil_iff]
  rw [hear, hearThrough, blank, reply_dropBlanks]

theorem hearThrough_congr (console : Console ω)
    {reply other : List Char → Except Fault (Option (List Char)) × Variables}
    (agree : ∀ text, text ≠ [] → other text = reply text) (line : List Char) :
    console.hearThrough other line = console.hearThrough reply line := by
  unfold hearThrough
  by_cases skipped : skips line = true
  · rw [if_pos skipped, if_pos skipped]
  · have some : Text.dropBlanks line ≠ [] := fun nothing => skipped ((skips_iff line).mpr nothing)
    rw [agree _ some]

theorem hearThrough_of_same_text (console : Console ω)
    (reply : List Char → Except Fault (Option (List Char)) × Variables) {first second : List Char}
    (same : Text.dropBlanks first = Text.dropBlanks second) (left : first.head? ≠ some '/')
    (right : second.head? ≠ some '/') : console.hearThrough reply first = console.hearThrough reply second := by
  have skipped : skips first = skips second := by
    rw [Bool.eq_iff_iff, skips_iff, skips_iff, same]
  rw [hearThrough, hearThrough, skipped, if_neg left, if_neg right, same]

/-- Lines that differ in blanks only, and are no commands, have the same effect on every console. The line
    without a text is passed over, and it alone: whatever would be replied to it is never asked. -/
theorem hear_blind_to_blanks (console : Console ω) :
    (∀ first second, Text.dropBlanks first = Text.dropBlanks second → first.head? ≠ some '/' →
      second.head? ≠ some '/' → console.hear first = console.hear second) ∧
    (∀ line, skips line = true ↔ Text.dropBlanks line = []) ∧
    (∀ line, skips line = true → console.hear line = ⟨[], console, .ok .more⟩) ∧
    ∀ reply, (∀ text, text ≠ [] → reply text = console.reply text) →
      ∀ line, console.hear line = console.hearThrough reply line := by
  refine ⟨?_, skips_iff, ?_, ?_⟩
  · intro first second same left right
    rw [hear_eq_hearThrough, hear_eq_hearThrough, console.hearThrough_of_same_text _ same left right]
  · intro line skipped
    rw [hear_eq_hearThrough, hearThrough, if_pos skipped]
  · intro reply agree line
    rw [hear_eq_hearThrough, console.hearThrough_congr agree]

theorem hear_blind_to_blanks_inside_words :
    let console : Console Room := ⟨Variables.empty.assign "xy".toList 4, .tokens, true, some 30⟩
    console.hear "\u00A0x\u3000y*\u20281 2\t".toList = console.hear "xy*12".toList ∧
      (console.hear "xy*12".toList).result = .error (.io Room.writeFailed) ∧
      console.hear "\u1680\u205F ".toList = ⟨[], console, .ok .more⟩ ∧
      console.hear " /help".toList = console.hearThrough
        (fun text => if text = [] then (.error .divisionByZero, .empty) else console.reply text)
          " /help".toList := by
  intro console
  obtain ⟨same, blank, silent, through⟩ := hear_blind_to_blanks console
  refine ⟨same _ _ (by decide) (by decide) (by decide), by decide, silent _ ((blank _).mpr (by decide)), ?_⟩
  apply through
  intro text some
  rw [if_neg some]

end Console
end LineCalculator

import LineCalculator.Name

/- The cut of a text into lexemes: longest runs of digits, longest runs of letters, and every other
   character on its own. -/
namespace LineCalculator

inductive Lexeme where
  | digits (text : List Char)
  | word (name : Name)
  | mark (c : Char)
  deriving DecidableEq, Repr

namespace Lexeme

def text : Lexeme → List Char
  | .digits text => text
  | .word name => name
  | .mark c => [c]

def glue (c : Char) (lexemes : List Lexeme) : List Lexeme :=
  if c.isDigit then
    match lexemes with
    | .digits run :: rest => .digits (c :: run) :: rest
    | _ => .digits [c] :: lexemes
  else if c.isAlpha then
    match lexemes with
    | .word run :: rest => .word (c :: run) :: rest
    | _ => .word [c] :: lexemes
  else .mark c :: lexemes

def cut (line : List Char) : List Lexeme := line.foldr glue []

@[simp] theorem cut_nil : cut [] = [] := rfl

@[simp] theorem cut_cons (c : Char) (line : List Char) : cut (c :: line) = glue c (cut line) := rfl

theorem glue_text (c : Char) (lexemes : List Lexeme) :
    (glue c lexemes).flatMap text = c :: lexemes.flatMap text := by
  unfold glue
  split
  · split <;> simp [text]
  · split
    · split <;> simp [text]
    · simp [text]

theorem cut_text (line : List Char) : (cut line).flatMap text = line := by
  induction line with
  | nil => rfl
  | cons c line ih => rw [cut_cons, glue_text, ih]

end Lexeme
end LineCalculator

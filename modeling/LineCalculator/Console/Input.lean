import LineCalculator.Console.Basic
import LineCalculator.Text.Pieces

/- A console over a whole input of bytes, and over several steps in a row. Bytes are cut into lines
   before they are decoded, so ill-formed bytes spoil their own line only. -/
namespace LineCalculator

/-- An input is either read to its end, or reading fails after its last byte. -/
inductive Ending where
  | closed
  | broken
  deriving DecidableEq, Repr

namespace Console
variable {ω : Type} [Output ω]

def isNewline (byte : UInt8) : Bool := byte = 10

/-- The text of a piece without the newlines and carriage returns at its end. -/
def lineText (piece : List UInt8) : List Char :=
  ((Utf8.decodeLossy piece).reverse.dropWhile fun c => c = '\n' || c = '\r').reverse

/-- Hears piece after piece; the count is that of the bytes in the pieces not reached. A last piece
    that a broken input leaves incomplete is taken but not heard. -/
def readPieces (ending : Ending) (console : Console ω) :
    List (List UInt8) → Effect ω Unit × Nat
  | [] =>
    match ending with
    | .closed => (console.print goodbye.toList, 0)
    | .broken => (⟨[], console, .error readFailed⟩, 0)
  | piece :: rest =>
    if ending = .broken ∧ Text.isComplete isNewline piece = false then
      (⟨[], console, .error readFailed⟩, rest.flatten.length)
    else
      let first := console.hear (lineText piece)
      match first.result with
      | .ok .more =>
        let (others, unread) := first.console.readPieces ending rest
        ({ others with written := first.written ++ others.written }, unread)
      | .ok .done => ({ first with result := .ok () }, rest.flatten.length)
      | .error fault => ({ first with result := .error fault }, rest.flatten.length)

section
variable {ending : Ending} {piece : List UInt8} {others : List (List UInt8)} {console : Console ω}
  (heard : ¬(ending = .broken ∧ Text.isComplete isNewline piece = false))
include heard

theorem readPieces_of_more (more : (console.hear (lineText piece)).result = .ok .more) :
    readPieces ending console (piece :: others) =
      let later := readPieces ending (console.hear (lineText piece)).console others
      ({ later.1 with written := (console.hear (lineText piece)).written ++ later.1.written }, later.2) := by
  simp [readPieces, heard, more]

theorem readPieces_of_stop (stop : (console.hear (lineText piece)).result ≠ .ok .more) :
    readPieces ending console (piece :: others) =
      ((console.hear (lineText piece)).map fun _ => (), others.flatten.length) := by
  simp only [readPieces, if_neg heard]
  cases result : (console.hear (lineText piece)).result with
  | error fault => simp [Effect.map, result, Except.map]
  | ok demand =>
    cases demand with
    | done => simp [Effect.map, result, Except.map]
    | more => contradiction

end

theorem readPieces_of_skipped {ending : Ending} {piece : List UInt8} (console : Console ω)
    (others : List (List UInt8)) (skipped : ending = .broken ∧ Text.isComplete isNewline piece = false) :
    readPieces ending console (piece :: others) =
      (⟨[], console, .error readFailed⟩, others.flatten.length) := by
  rw [readPieces, if_pos skipped]

/-- Along a run: no piece is left, one is taken but not heard, one is heard and more are wanted, or one is the
    last to be heard. -/
theorem run_induction (ending : Ending) {motive : Console ω → List (List UInt8) → Prop}
    (nil : ∀ console, motive console [])
    (skipped : ∀ console piece others, ending = .broken ∧ Text.isComplete isNewline piece = false →
      motive console (piece :: others))
    (more : ∀ console piece others, ¬(ending = .broken ∧ Text.isComplete isNewline piece = false) →
      (console.hear (lineText piece)).result = .ok .more →
      motive (console.hear (lineText piece)).console others → motive console (piece :: others))
    (stop : ∀ console piece others, ¬(ending = .broken ∧ Text.isComplete isNewline piece = false) →
      (console.hear (lineText piece)).result ≠ .ok .more → motive console (piece :: others))
    (console : Console ω) (pieces : List (List UInt8)) : motive console pieces := by
  induction pieces generalizing console with
  | nil => exact nil console
  | cons piece others ih =>
    by_cases unheard : ending = .broken ∧ Text.isComplete isNewline piece = false
    · exact skipped console piece others unheard
    · by_cases wanted : (console.hear (lineText piece)).result = .ok .more
      · exact more console piece others unheard wanted (ih _)
      · exact stop console piece others unheard wanted

def read (console : Console ω) (bytes : List UInt8) (ending : Ending) : Effect ω Unit × Nat :=
  console.readPieces ending (Text.cutAfter isNewline bytes)

inductive Step where
  | line (text : List Char)
  | input (bytes : List UInt8) (ending : Ending)
  deriving DecidableEq, Repr

structure StepEffect (ω : Type := Room) where
  effect : Effect ω (Option Demand)
  unread : Option Nat

def perform (console : Console ω) : Step → StepEffect ω
  | .line text => ⟨(console.hear text).map some, none⟩
  | .input bytes ending =>
    let (effect, unread) := console.read bytes ending
    ⟨effect.map fun _ => none, some unread⟩

def performAll (console : Console ω) : List Step → List (StepEffect ω)
  | [] => []
  | step :: rest =>
    let first := console.perform step
    first :: first.effect.console.performAll rest

end Console
end LineCalculator

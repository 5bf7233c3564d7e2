import Mathlib.Data.List.Chain
import LineCalculator.Expression.Lexeme

/- The cut of a text into lexemes is the only one whose runs are not empty, of one class, and never next
   to a run of the same class. -/
namespace LineCalculator

namespace Lexeme

/-- A run is of one class and not empty, and a mark is of neither class. -/
def Proper : Lexeme → Prop
  | .digits text => text ≠ [] ∧ ∀ c ∈ text, c.isDigit = true
  | .word name => name.isWord = true
  | .mark c => c.isDigit = false ∧ c.isAlpha = false

theorem glue_proper (c : Char) {lexemes : List Lexeme} (proper : ∀ l ∈ lexemes, l.Proper) :
    ∀ l ∈ glue c lexemes, l.Proper := by
  unfold glue
  split
  · next digit =>
    split
    · next run rest =>
      have first := proper (.digits run) (by simp)
      simp_all [Proper]
    · simp_all [Proper]
  · next noDigit =>
    split
    · next letter =>
      split
      · next run rest =>
        have first := proper (.word run) (by simp)
        simp_all [Proper, Name.isWord_iff]
      · simp_all [Proper, Name.isWord_iff]
    · simp_all [Proper]

theorem cut_proper (line : List Char) : ∀ l ∈ cut line, l.Proper := by
  induction line with
  | nil => simp
  | cons c line ih => exact glue_proper c ih

theorem glue_append_mark (c m : Char) (first rest : List Lexeme) :
    glue c (first ++ .mark m :: rest) = glue c first ++ .mark m :: rest := by
  cases first with
  | nil => by_cases digit : c.isDigit <;> by_cases letter : c.isAlpha <;> simp [glue, digit, letter]
  | cons l first =>
    cases l <;> by_cases digit : c.isDigit <;> by_cases letter : c.isAlpha <;>
      simp [glue, digit, letter]

theorem cut_append_mark {m : Char} (mark : (Lexeme.mark m).Proper) (first rest : List Char) :
    cut (first ++ m :: rest) = cut first ++ .mark m :: cut rest := by
  induction first with
  | nil => simp [glue, mark.1, mark.2]
  | cons c first ih => rw [List.cons_append, cut_cons, ih, glue_append_mark, cut_cons]

theorem mark_mem_cut {m : Char} (mark : (Lexeme.mark m).Proper) {text : List Char} (mem : m ∈ text) :
    .mark m ∈ cut text := by
  obtain ⟨first, rest, rfl⟩ := List.append_of_mem mem
  rw [cut_append_mark mark]
  simp

theorem cut_mark_cons {m : Char} (mark : (Lexeme.mark m).Proper) (rest : List Char) :
    cut (m :: rest) = .mark m :: cut rest :=
  cut_append_mark mark [] rest

theorem mem_of_mem_cut {text : List Char} {l : Lexeme} (mem : l ∈ cut text) {c : Char}
    (inside : c ∈ l.text) : c ∈ text := by
  rw [← cut_text text]
  exact List.mem_flatMap.mpr ⟨l, mem, inside⟩

theorem letter_of_word_mem_cut {text : List Char} {name : Name} (mem : .word name ∈ cut text) :
    ∃ c ∈ text, c.isAlpha = true := by
  obtain ⟨some, letters⟩ := (Name.isWord_iff name).mp (cut_proper text (.word name) mem)
  obtain ⟨c, inside⟩ := List.exists_mem_of_ne_nil name some
  exact ⟨c, mem_of_mem_cut mem inside, letters c inside⟩

def joins : Lexeme → Lexeme → Bool
  | .digits _, .digits _ => true
  | .word _, .word _ => true
  | _, _ => false

def Apart (lexemes : List Lexeme) : Prop := lexemes.IsChain fun a b => a.joins b = false

theorem joins_digits (text other : List Char) (l : Lexeme) :
    (digits text).joins l = (digits other).joins l := by
  cases l <;> rfl

theorem joins_word (name other : Name) (l : Lexeme) : (word name).joins l = (word other).joins l := by
  cases l <;> rfl

theorem glue_digit {c : Char} (digit : c.isDigit = true) {lexemes : List Lexeme}
    (fresh : ∀ next ∈ lexemes.head?, (digits [c]).joins next = false) :
    glue c lexemes = .digits [c] :: lexemes := by
  unfold glue
  rw [if_pos digit]
  split
  · simp [joins] at fresh
  · rfl

theorem glue_letter {c : Char} (letter : c.isAlpha = true) {lexemes : List Lexeme}
    (fresh : ∀ next ∈ lexemes.head?, (word [c]).joins next = false) :
    glue c lexemes = .word [c] :: lexemes := by
  unfold glue
  rw [if_neg (by simp [isDigit_eq_false_of_isAlpha letter]), if_pos letter]
  split
  · simp [joins] at fresh
  · rfl

theorem glue_apart (c : Char) {lexemes : List Lexeme} (apart : Apart lexemes) :
    Apart (glue c lexemes) := by
  unfold glue
  split
  · split
    · next run rest =>
      obtain ⟨fresh, others⟩ := List.isChain_cons.mp apart
      exact List.isChain_cons.mpr ⟨fun y mem => joins_digits run (c :: run) y ▸ fresh y mem, others⟩
    · next other =>
      refine List.isChain_cons.mpr ⟨?_, apart⟩
      intro next head
      cases next with
      | digits run => exact absurd (List.cons_head?_tail head).symm (other run _)
      | word name => rfl
      | mark m => rfl
  · split
    · split
      · next run rest =>
        obtain ⟨fresh, others⟩ := List.isChain_cons.mp apart
        exact List.isChain_cons.mpr ⟨fun y mem => joins_word run (c :: run) y ▸ fresh y mem, others⟩
      · next other =>
        refine List.isChain_cons.mpr ⟨?_, apart⟩
        intro next head
        cases next with
        | digits run => rfl
        | word name => exact absurd (List.cons_head?_tail head).symm (other name _)
        | mark m => rfl
    · exact List.isChain_cons.mpr ⟨fun y _ => rfl, apart⟩

theorem cut_apart (line : List Char) : Apart (cut line) := by
  induction line with
  | nil => exact .nil
  | cons c line ih => exact glue_apart c ih

theorem cut_append_run {run rest : List Char} (make : List Char → Lexeme) (some : run ≠ [])
    (starts : ∀ c ∈ run, glue c (cut rest) = make [c] :: cut rest)
    (grows : ∀ c ∈ run, ∀ d tail,
      glue c (make (d :: tail) :: cut rest) = make (c :: d :: tail) :: cut rest) :
    cut (run ++ rest) = make run :: cut rest := by
  induction run with
  | nil => contradiction
  | cons c run ih =>
    rw [List.cons_append, cut_cons]
    cases run with
    | nil => exact starts c (by simp)
    | cons d tail =>
      rw [ih (by simp) (fun x mem => starts x (by simp [mem])) fun x mem => grows x (by simp [mem])]
      exact grows c (by simp) d tail

theorem cut_append {l : Lexeme} (proper : l.Proper) {rest : List Char}
    (apart : ∀ next ∈ (cut rest).head?, l.joins next = false) : cut (l.text ++ rest) = l :: cut rest := by
  cases l with
  | mark m => exact cut_mark_cons proper rest
  | digits run =>
    obtain ⟨some, digits⟩ := proper
    refine cut_append_run .digits some ?_ ?_
    · intro c mem
      exact glue_digit (digits c mem) fun next head => joins_digits run [c] next ▸ apart next head
    · intro c mem d tail
      simp [glue, digits c mem]
  | word name =>
    obtain ⟨some, letters⟩ := (Name.isWord_iff name).mp proper
    refine cut_append_run .word some ?_ ?_
    · intro c mem
      exact glue_letter (letters c mem) fun next head => joins_word name [c] next ▸ apart next head
    · intro c mem d tail
      simp [glue, letters c mem, isDigit_eq_false_of_isAlpha (letters c mem)]

def takes : Lexeme → Char → Bool
  | .digits _ => Char.isDigit
  | .word _ => Char.isAlpha
  | .mark _ => fun _ => false

theorem head_of_cut {text : List Char} {l : Lexeme} (first : l ∈ (cut text).head?) :
    ∃ c ∈ text.head?, ∀ other : Lexeme, other.joins l = true → other.takes c = true := by
  obtain ⟨others, parts⟩ := List.head?_eq_some_iff.mp first
  have spelled := cut_text text
  have proper : l.Proper := cut_proper text l (by simp [parts])
  rw [parts, List.flatMap_cons] at spelled
  cases l with
  | digits run =>
    obtain ⟨some, digits⟩ := proper
    obtain ⟨c, run, rfl⟩ := List.exists_cons_of_ne_nil some
    refine ⟨c, by simp [← spelled, Lexeme.text], ?_⟩
    intro other joined
    cases other with
    | digits _ => exact digits c (by simp)
    | word _ => contradiction
    | mark _ => contradiction
  | word name =>
    obtain ⟨some, letters⟩ := (Name.isWord_iff name).mp proper
    obtain ⟨c, name, rfl⟩ := List.exists_cons_of_ne_nil some
    refine ⟨c, by simp [← spelled, Lexeme.text], ?_⟩
    intro other joined
    cases other with
    | digits _ => contradiction
    | word _ => exact letters c (by simp)
    | mark _ => contradiction
  | mark m =>
    refine ⟨m, by simp [← spelled, Lexeme.text], ?_⟩
    intro other joined
    cases other <;> contradiction

theorem cut_append_of_stop {l : Lexeme} (proper : l.Proper) {rest : List Char}
    (stop : ∀ c ∈ rest.head?, l.takes c = false) : cut (l.text ++ rest) = l :: cut rest := by
  refine cut_append proper ?_
  intro next first
  obtain ⟨c, head, joined⟩ := head_of_cut first
  cases joins : l.joins next with
  | false => rfl
  | true =>
    have taken := joined l joins
    rw [stop c head] at taken
    contradiction

theorem cut_flatMap_text {lexemes : List Lexeme} (proper : ∀ l ∈ lexemes, l.Proper)
    (apart : Apart lexemes) : cut (lexemes.flatMap text) = lexemes := by
  induction lexemes with
  | nil => rfl
  | cons l rest ih =>
    obtain ⟨fresh, others⟩ := List.isChain_cons.mp apart
    have tail := ih (fun m mem => proper m (by simp [mem])) others
    rw [List.flatMap_cons, cut_append (proper l (by simp)) (by rwa [tail]), tail]

theorem cut_text_of_proper {l : Lexeme} (proper : l.Proper) : cut l.text = [l] := by
  have alone : ∀ next ∈ (cut []).head?, l.joins next = false := by simp
  simpa using cut_append proper alone

theorem cut_digits {text : List Char} (some : text ≠ []) (digits : ∀ c ∈ text, c.isDigit = true) :
    cut text = [.digits text] := by
  have proper : (Lexeme.digits text).Proper := ⟨some, digits⟩
  exact cut_text_of_proper proper

theorem cut_word {name : Name} (word : name.isWord = true) : cut name = [.word name] := by
  have proper : (Lexeme.word name).Proper := word
  exact cut_text_of_proper proper

end Lexeme
end LineCalculator

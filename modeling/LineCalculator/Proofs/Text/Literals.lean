import LineCalculator.Expression.Operation
import LineCalculator.Text.Decimal

/- The literals of integers: exactly the texts that are read as an integer, each with its value. -/
namespace LineCalculator

inductive Literal : List Char → Int → Prop where
  | plain {digits : List Char} (some : digits ≠ []) (all : ∀ c ∈ digits, c.isDigit = true) :
      Literal digits (Nat.ofDigitChars 10 digits 0)
  | signed (s : Sign) {digits : List Char} (some : digits ≠ []) (all : ∀ c ∈ digits, c.isDigit = true) :
      Literal (s.symbol :: digits) (s.apply (Nat.ofDigitChars 10 digits 0))

theorem Decimal.readInt?_eq_some_iff {text : List Char} {v : Int} :
    readInt? text = some v ↔ Literal text v := by
  constructor
  · intro read
    unfold readInt? at read
    split at read
    · obtain ⟨n, number, rfl⟩ := Option.map_eq_some_iff.mp read
      obtain ⟨⟨some, all⟩, rfl⟩ := readNat?_eq_some_iff.mp number
      exact .signed .minus some all
    · obtain ⟨n, number, rfl⟩ := Option.map_eq_some_iff.mp read
      obtain ⟨⟨some, all⟩, rfl⟩ := readNat?_eq_some_iff.mp number
      exact .signed .plus some all
    · obtain ⟨n, number, rfl⟩ := Option.map_eq_some_iff.mp read
      obtain ⟨⟨some, all⟩, rfl⟩ := readNat?_eq_some_iff.mp number
      exact .plain some all
  · intro literal
    cases literal with
    | plain some all =>
      rw [readInt?_of_digits all, readNat?_eq_some_iff.mpr ⟨⟨some, all⟩, rfl⟩, Option.map_some]
    | signed s some all =>
      have number := readNat?_eq_some_iff.mpr ⟨⟨some, all⟩, rfl⟩
      cases s with
      | plus => simp [readInt?, Sign.symbol, Sign.apply, number]
      | minus => simp [readInt?, Sign.symbol, Sign.apply, number]

namespace Literal
variable {text : List Char} {v : Int}

theorem ofInt (n : Int) : Literal (Decimal.ofInt n) n :=
  Decimal.readInt?_eq_some_iff.mp (Decimal.readInt?_ofInt n)

theorem ne_nil (literal : Literal text v) : text ≠ [] := by
  cases literal with
  | plain some all => exact some
  | signed s some all => exact List.cons_ne_nil _ _

theorem slash_not_mem (literal : Literal text v) : '/' ∉ text := by
  have digits : ∀ {run : List Char}, (∀ c ∈ run, c.isDigit = true) → '/' ∉ run := by
    intro run all mem
    have digit := all '/' mem
    contradiction
  cases literal with
  | plain some all => exact digits all
  | signed s some all => cases s <;> simpa [Sign.symbol] using digits all

end Literal

end LineCalculator

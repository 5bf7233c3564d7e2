/- Decimal text of integers of any size. Digits are the ASCII digits only. -/
namespace LineCalculator.Decimal

def readNat? (text : List Char) : Option Nat :=
  if text ≠ [] ∧ text.all Char.isDigit then some (Nat.ofDigitChars 10 text 0) else none

def readInt? : List Char → Option Int
  | '-' :: digits => (readNat? digits).map fun n : Nat => -(n : Int)
  | '+' :: digits => (readNat? digits).map fun n : Nat => (n : Int)
  | digits => (readNat? digits).map fun n : Nat => (n : Int)

/-- The shortest text of an integer: no leading zeros, and a sign only below zero. -/
def ofInt : Int → List Char
  | .ofNat n => Nat.toDigits 10 n
  | .negSucc n => '-' :: Nat.toDigits 10 (n + 1)

theorem readNat?_toDigits (n : Nat) : readNat? (Nat.toDigits 10 n) = some n := by
  have digits : (Nat.toDigits 10 n).all Char.isDigit = true :=
    List.all_eq_true.mpr fun c h => Nat.isDigit_of_mem_toDigits (by decide) (by decide) h
  simp [readNat?, digits, Nat.toDigits_ne_nil, Nat.ofDigitChars_ten_toDigits]

theorem readNat?_eq_some_iff {text : List Char} {n : Nat} :
    readNat? text = some n ↔
      (text ≠ [] ∧ ∀ c ∈ text, c.isDigit = true) ∧ Nat.ofDigitChars 10 text 0 = n := by
  unfold readNat?
  split
  · next h => simpa [h] using fun _ => List.all_eq_true.mp h.2
  · next h =>
    simp only [reduceCtorEq, false_iff]
    exact fun both => h ⟨both.1.1, List.all_eq_true.mpr both.1.2⟩

theorem readInt?_of_digits {text : List Char} (digits : ∀ c ∈ text, c.isDigit = true) :
    readInt? text = (readNat? text).map fun n : Nat => (n : Int) := by
  unfold readInt?
  split
  · have sign := digits '-' (by simp)
    contradiction
  · have sign := digits '+' (by simp)
    contradiction
  · rfl

theorem readInt?_ofInt (n : Int) : readInt? (ofInt n) = some n := by
  cases n with
  | ofNat m =>
    have digits : ∀ c ∈ Nat.toDigits 10 m, c.isDigit = true :=
      fun c mem => Nat.isDigit_of_mem_toDigits (by decide) (by decide) mem
    rw [ofInt, readInt?_of_digits digits, readNat?_toDigits]
    rfl
  | negSucc m =>
    rw [ofInt, readInt?, readNat?_toDigits]
    rfl

theorem ofInt_injective {m n : Int} (same : ofInt m = ofInt n) : m = n := by
  have read := readInt?_ofInt m
  rw [same, readInt?_ofInt] at read
  exact (Option.some.inj read).symm

end LineCalculator.Decimal

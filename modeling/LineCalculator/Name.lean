/- Names of variables. A line can only write a name of ASCII letters; a table takes any text. -/
namespace LineCalculator

abbrev Name := List Char

def Name.isWord (name : Name) : Bool := !name.isEmpty && name.all Char.isAlpha

theorem Name.isWord_iff (name : Name) :
    name.isWord = true ↔ name ≠ [] ∧ ∀ c ∈ name, c.isAlpha = true := by
  simp [Name.isWord]

theorem Name.isAlpha_of_mem {name : Name} (word : name.isWord = true) {c : Char} (mem : c ∈ name) :
    c.isAlpha = true :=
  ((Name.isWord_iff name).mp word).2 c mem

theorem Name.equals_not_mem {name : Name} (word : name.isWord = true) : '=' ∉ name := by
  intro mem
  have letter := isAlpha_of_mem word mem
  contradiction

theorem toNat_bounds_of_isAlpha {c : Char} (letter : c.isAlpha = true) :
    65 ≤ c.toNat ∧ c.toNat ≤ 122 := by
  rcases (Bool.or_eq_true c.isUpper c.isLower).mp letter with upper | lower
  · have low : 65 ≤ c.toNat := (of_decide_eq_true upper).1
    have high : c.toNat ≤ 90 := (of_decide_eq_true upper).2
    omega
  · have low : 97 ≤ c.toNat := of_decide_eq_true ((Bool.and_eq_true _ _).mp lower).1
    have high : c.toNat ≤ 122 := of_decide_eq_true ((Bool.and_eq_true _ _).mp lower).2
    omega

theorem isDigit_eq_false_of_isAlpha {c : Char} (letter : c.isAlpha = true) : c.isDigit = false := by
  have low := (toNat_bounds_of_isAlpha letter).1
  by_cases digit : c.isDigit = true
  · have high : c.toNat ≤ 57 := (Char.isDigit_iff_toNat.mp digit).2
    omega
  · exact Bool.eq_false_iff.mpr digit

end LineCalculator

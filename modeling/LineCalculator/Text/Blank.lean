import LineCalculator.Name

/- The blank characters of a line: those with the Unicode property White_Space. -/
namespace LineCalculator.Text

def blankRanges : List (Nat × Nat) :=
  [(0x09, 0x0D), (0x20, 0x20), (0x85, 0x85), (0xA0, 0xA0), (0x1680, 0x1680), (0x2000, 0x200A),
   (0x2028, 0x2029), (0x202F, 0x202F), (0x205F, 0x205F), (0x3000, 0x3000)]

def isBlank (c : Char) : Bool :=
  blankRanges.any fun (low, high) => low ≤ c.toNat && c.toNat ≤ high

theorem isBlank_eq_false_of_visible {c : Char} (low : 0x20 < c.toNat) (high : c.toNat < 0x7F) :
    isBlank c = false := by
  simp only [isBlank, blankRanges, List.any_cons, List.any_nil, Bool.or_false, Bool.or_eq_false_iff,
    Bool.and_eq_false_iff, decide_eq_false_iff_not]
  omega

theorem isBlank_eq_false_of_isDigit {c : Char} (digit : c.isDigit = true) : isBlank c = false := by
  have low : 48 ≤ c.toNat := (Char.isDigit_iff_toNat.mp digit).1
  have high : c.toNat ≤ 57 := (Char.isDigit_iff_toNat.mp digit).2
  exact isBlank_eq_false_of_visible (by omega) (by omega)

theorem isBlank_eq_false_of_isAlpha {c : Char} (letter : c.isAlpha = true) : isBlank c = false := by
  obtain ⟨low, high⟩ := toNat_bounds_of_isAlpha letter
  exact isBlank_eq_false_of_visible (by omega) (by omega)

def dropBlanks (text : List Char) : List Char := text.filter (!isBlank ·)

theorem dropBlanks_of_clear {text : List Char} (clear : ∀ c ∈ text, isBlank c = false) :
    dropBlanks text = text := by
  apply List.filter_eq_self.mpr
  intro c mem
  simp [clear c mem]

theorem dropBlanks_of_isWord {name : Name} (word : name.isWord = true) : dropBlanks name = name := by
  apply dropBlanks_of_clear
  intro c mem
  exact isBlank_eq_false_of_isAlpha (Name.isAlpha_of_mem word mem)

theorem dropBlanks_append (a b : List Char) : dropBlanks (a ++ b) = dropBlanks a ++ dropBlanks b := by
  simp [dropBlanks]

@[simp] theorem dropBlanks_dropBlanks (text : List Char) :
    dropBlanks (dropBlanks text) = dropBlanks text := by
  simp [dropBlanks]

theorem dropBlanks_eq_nil_iff (text : List Char) : dropBlanks text = [] ↔ text.all isBlank = true := by
  simp [dropBlanks]

end LineCalculator.Text

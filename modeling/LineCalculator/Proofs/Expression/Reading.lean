import LineCalculator.Expression.Postfix
import LineCalculator.Proofs.Expression.Cutting

/- Which lexemes are tokens in their place. -/
namespace LineCalculator

namespace Lexeme

def items (lookup : Lookup) (afterOperand : Bool) (lexemes : List Lexeme) :
    List (Except Fault Token) :=
  (Reading.all lookup afterOperand lexemes).map Reading.item

variable {lookup : Lookup} {afterOperand : Bool}

@[simp] theorem items_nil : items lookup afterOperand [] = [] := rfl

theorem items_cons_of_ok {l : Lexeme} {t : Token} (h : (l.read lookup afterOperand).item = .ok t)
    (rest : List Lexeme) :
    items lookup afterOperand (l :: rest) = .ok t :: items lookup t.endsOperand rest := by
  simp [items, Reading.all, h]

theorem items_cons_of_error {l : Lexeme} {fault : Fault}
    (h : (l.read lookup afterOperand).item = .error fault) (rest : List Lexeme) :
    items lookup afterOperand (l :: rest) = [.error fault] := by
  simp [items, Reading.all, h]

end Lexeme

/-- Every lexeme is a token in its place. -/
inductive Spells (lookup : Lookup) : Bool → List Lexeme → List Token → Prop where
  | nil (afterOperand : Bool) : Spells lookup afterOperand [] []
  | cons {afterOperand : Bool} {l : Lexeme} {t : Token} {ls : List Lexeme} {ts : List Token}
      (first : (l.read lookup afterOperand).item = .ok t)
      (tail : Spells lookup t.endsOperand ls ts) : Spells lookup afterOperand (l :: ls) (t :: ts)

namespace Spells
variable {lookup : Lookup} {afterOperand : Bool} {lexemes : List Lexeme} {tokens : List Token}

theorem mark {c : Char} {t : Token} (first : Token.ofMark afterOperand c = .ok t)
    (tail : Spells lookup t.endsOperand lexemes tokens) :
    Spells lookup afterOperand (.mark c :: lexemes) (t :: tokens) :=
  .cons first tail

theorem items_eq (h : Spells lookup afterOperand lexemes tokens) :
    Lexeme.items lookup afterOperand lexemes = tokens.map .ok := by
  induction h with
  | nil afterOperand => rfl
  | cons first tail ih => rw [Lexeme.items_cons_of_ok first, ih, List.map_cons]

theorem ofItems_eq (h : Lexeme.items lookup afterOperand lexemes = tokens.map .ok) :
    Spells lookup afterOperand lexemes tokens := by
  induction lexemes generalizing afterOperand tokens with
  | nil =>
    have none : tokens = [] := by simpa using h.symm
    rw [none]
    exact .nil afterOperand
  | cons l lexemes ih =>
    cases first : (l.read lookup afterOperand).item with
    | error fault =>
      rw [Lexeme.items_cons_of_error first] at h
      cases tokens <;> simp at h
    | ok t =>
      rw [Lexeme.items_cons_of_ok first] at h
      cases tokens with
      | nil => simp at h
      | cons u tokens =>
        simp only [List.map_cons, List.cons.injEq, Except.ok.injEq] at h
        obtain ⟨same, rest⟩ := h
        subst same
        exact .cons first (ih rest)

theorem uncons {t : Token} (h : Spells lookup afterOperand lexemes (t :: tokens)) :
    ∃ l rest, lexemes = l :: rest ∧ (l.read lookup afterOperand).item = .ok t ∧
      Spells lookup t.endsOperand rest tokens := by
  cases h with
  | cons first tail => exact ⟨_, _, rfl, first, tail⟩

theorem single {t : Token} (h : Spells lookup afterOperand lexemes [t]) :
    ∃ l, lexemes = [l] ∧ (l.read lookup afterOperand).item = .ok t := by
  obtain ⟨l, rest, rfl, first, tail⟩ := h.uncons
  cases tail
  exact ⟨l, rfl, first⟩

theorem unique {others : List Token} (h : Spells lookup afterOperand lexemes tokens)
    (h' : Spells lookup afterOperand lexemes others) : tokens = others := by
  have same := h.items_eq.symm.trans h'.items_eq
  exact (List.map_inj_right fun _ _ => Except.ok.inj).mp same

theorem known (h : Spells lookup afterOperand lexemes tokens) {name : Name}
    (mem : .word name ∈ lexemes) : lookup name = some ((lookup name).getD 0) := by
  induction h with
  | nil afterOperand => simp at mem
  | @cons afterOperand l t ls ts first tail ih =>
    rcases List.mem_cons.mp mem with here | later
    · subst here
      cases value : lookup name with
      | none => simp [Lexeme.read, value] at first
      | some n => rfl
    · exact ih later

theorem split {first rest : List Token} (h : Spells lookup afterOperand lexemes (first ++ rest)) :
    ∃ ls rs behind, lexemes = ls ++ rs ∧ Spells lookup afterOperand ls first ∧
      Spells lookup behind rs rest := by
  induction first generalizing afterOperand lexemes with
  | nil => exact ⟨[], lexemes, afterOperand, rfl, .nil _, h⟩
  | cons t first ih =>
    cases h with
    | cons here tail =>
      obtain ⟨ls, rs, behind, same, front, back⟩ := ih tail
      exact ⟨_ :: ls, rs, behind, by rw [same, List.cons_append], .cons here front, back⟩

end Spells

namespace Token

theorem ofMark_operation (o : Operation) : ofMark true o.symbol = .ok (.operation o) := by
  cases o <;> rfl

theorem ofMark_sign (s : Sign) : ofMark false s.symbol = .ok (.sign s) := by
  cases s <;> rfl

theorem ofMark_opening (afterOperand : Bool) : ofMark afterOperand '(' = .ok .opening := by
  cases afterOperand <;> rfl

theorem ofMark_closing (afterOperand : Bool) : ofMark afterOperand ')' = .ok .closing := by
  cases afterOperand <;> rfl

theorem ofMark_eq_ok {afterOperand : Bool} {c : Char} {t : Token}
    (h : ofMark afterOperand c = .ok t) :
    (∃ o, t = .operation o ∧ c = o.symbol ∧ afterOperand = true) ∨
      (∃ s, t = .sign s ∧ c = s.symbol ∧ afterOperand = false) ∨
      (t = .opening ∧ c = '(') ∨ (t = .closing ∧ c = ')') := by
  unfold ofMark at h
  split at h
  · next plus =>
    cases afterOperand
    · exact Or.inr (Or.inl ⟨.plus, by simpa using h.symm, plus, rfl⟩)
    · exact Or.inl ⟨.add, by simpa using h.symm, plus, rfl⟩
  split at h
  · next minus =>
    cases afterOperand
    · exact Or.inr (Or.inl ⟨.minus, by simpa using h.symm, minus, rfl⟩)
    · exact Or.inl ⟨.subtract, by simpa using h.symm, minus, rfl⟩
  split at h
  · next times => exact Or.inl ⟨.multiply, by simpa using h.symm, times⟩
  split at h
  · next divided => exact Or.inl ⟨.divide, by simpa using h.symm, divided⟩
  split at h
  · next opening => exact Or.inr (Or.inr (Or.inl ⟨by simpa using h.symm, opening⟩))
  split at h
  · next closing => exact Or.inr (Or.inr (Or.inr ⟨by simpa using h.symm, closing⟩))
  · simp at h

end Token

theorem Lexeme.read_eq_ok {lookup : Lookup} {afterOperand : Bool} {l : Lexeme} {t : Token}
    (h : (l.read lookup afterOperand).item = .ok t) :
    (∃ text n, l = .digits text ∧ Decimal.readNat? text = some n ∧ t = .number n) ∨
      (∃ name n, l = .word name ∧ lookup name = some n ∧ t = .reference name n) ∨
      (∃ c, l = .mark c ∧ Token.ofMark afterOperand c = .ok t) := by
  cases l with
  | digits text =>
    cases value : Decimal.readNat? text with
    | none => simp [read, value] at h
    | some n => exact Or.inl ⟨text, n, rfl, value, by simpa [read, value] using h.symm⟩
  | word name =>
    cases value : lookup name with
    | none => simp [read, value] at h
    | some n => exact Or.inr (Or.inl ⟨name, n, rfl, value, by simpa [read, value] using h.symm⟩)
  | mark c => exact Or.inr (Or.inr ⟨c, rfl, h⟩)

namespace Lexeme

theorem opening_proper : (mark '(').Proper := ⟨rfl, rfl⟩

theorem closing_proper : (mark ')').Proper := ⟨rfl, rfl⟩

end Lexeme

theorem Operation.symbol_proper (o : Operation) : (Lexeme.mark o.symbol).Proper := by
  cases o <;> exact ⟨rfl, rfl⟩

theorem Sign.symbol_proper (s : Sign) : (Lexeme.mark s.symbol).Proper := by
  cases s <;> exact ⟨rfl, rfl⟩

end LineCalculator

import LineCalculator.Proofs.Expression.Postorder

/- The tree behind a postfix order. Trees grown over a stack, token by token, undo the postorder. So no
   list of tokens is a phrase of two trees, and parentheses count only as far as they shape the tree. -/
namespace LineCalculator

namespace Tree

def grow (stack : List Tree) (token : Token) : Option (List Tree) :=
  match token, stack with
  | .number n, _ => some (.number n :: stack)
  | .reference name n, _ => some (.reference name n :: stack)
  | .sign s, operand :: below => some (.sign s operand :: below)
  | .operation o, right :: left :: below => some (.operation o left right :: below)
  | _, _ => none

theorem foldlM_grow_postorder (t : Tree) (stack : List Tree) :
    t.postorder.foldlM grow stack = some (t :: stack) := by
  induction t generalizing stack with
  | number n => rfl
  | reference name n => rfl
  | sign s t ih =>
    rw [postorder, List.foldlM_append, ih]
    rfl
  | operation o l r ihl ihr =>
    rw [postorder, List.foldlM_append, List.foldlM_append, ihl]
    change r.postorder.foldlM grow (l :: stack) >>= _ = _
    rw [ihr]
    rfl

theorem eq_of_postorder_eq {t u : Tree} (same : t.postorder = u.postorder) : t = u := by
  have grown := foldlM_grow_postorder u []
  rw [← same, foldlM_grow_postorder] at grown
  simpa using grown

/-- The tokens of a tree as they are written, without any parentheses: a sign in front of its operand,
    an operation between its sides. -/
def inorder : Tree → List Token
  | .number n => [.number n]
  | .reference name n => [.reference name n]
  | .sign s t => .sign s :: t.inorder
  | .operation o l r => l.inorder ++ .operation o :: r.inorder

end Tree

namespace Derives
variable {level other : Level} {ts : List Token} {t u : Tree}

theorem toSum (h : Derives level ts t) : Derives .sum ts t := by
  cases level with
  | sum => exact h
  | term => exact .ofTerm h
  | factor => exact .ofTerm (.ofFactor h)

theorem tree_unique (h : Derives level ts t) (h' : Derives other ts u) : t = u := by
  have first := Postfix.ofTokens_phrase h.toSum
  have second := Postfix.ofTokens_phrase h'.toSum
  rw [first] at second
  exact Tree.eq_of_postorder_eq (Except.ok.inj second)

theorem inorder_eq (h : Derives level ts t) : t.inorder = ts.filter (!Token.isParenthesis ·) := by
  induction h with
  | number n => rfl
  | reference name n => rfl
  | group inner ih => simpa [Token.isParenthesis] using ih
  | sign s operand ih => simpa [Tree.inorder, Token.isParenthesis] using ih
  | ofFactor only ih => exact ih
  | product o tight left right ihl ihr => simp [Tree.inorder, Token.isParenthesis, ihl, ihr]
  | ofTerm only ih => exact ih
  | sum o loose left right ihl ihr => simp [Tree.inorder, Token.isParenthesis, ihl, ihr]

end Derives

/-- The postfix order of a phrase is the postorder of the one tree that the phrase has. Two phrases have
    the same order exactly when they have the same tree, and then they differ in parentheses alone. -/
theorem Postfix.ofTokens_derived {ts : List Token} {t : Tree} (derived : Derives .sum ts t) :
    ofTokens ts = .ok t.postorder ∧
    (∀ u, Derives .sum ts u → u = t) ∧
    ∀ us u, Derives .sum us u →
      (ofTokens us = ofTokens ts ↔ u = t) ∧
      (u = t → us.filter (!Token.isParenthesis ·) = ts.filter (!Token.isParenthesis ·)) := by
  have order : ofTokens ts = .ok t.postorder := ofTokens_phrase derived
  refine ⟨order, fun u again => again.tree_unique derived, ?_⟩
  intro us u other
  refine ⟨⟨?_, ?_⟩, ?_⟩
  · intro same
    rw [ofTokens_phrase other, order] at same
    exact Tree.eq_of_postorder_eq (Except.ok.inj same)
  · rintro rfl
    rw [ofTokens_phrase other, order]
  · rintro rfl
    rw [← other.inorder_eq, ← derived.inorder_eq]

theorem Postfix.ofTokens_derived_of_redundant_groups :
    let plain : List Token := [.sign .minus, .opening, .number (-2), .operation .add, .reference ['a'] 5,
      .closing, .operation .multiply, .number 3]
    let grouped : List Token := [.opening, .sign .minus, .opening, .opening, .number (-2), .closing,
      .operation .add, .reference ['a'] 5, .closing, .closing, .operation .multiply, .opening, .opening,
      .number 3, .closing, .closing]
    ofTokens plain = .ok [.number (-2), .reference ['a'] 5, .operation .add, .sign .minus, .number 3,
      .operation .multiply] ∧
    ofTokens grouped = ofTokens plain := by
  intro plain grouped
  have two := Derives.number (-2)
  have three := Derives.number 3
  have a := Derives.reference ['a'] 5
  have negated := Derives.sign .minus (.group (.sum .add rfl two.toSum (.ofFactor a)))
  have wrapped := Derives.sign .minus (.group (.sum .add rfl (.ofTerm (.ofFactor (.group two.toSum)))
    (.ofFactor a)))
  have first := Derives.product .multiply rfl (.ofFactor negated) three
  have second := Derives.product .multiply rfl (.ofFactor (.group wrapped.toSum))
    (.group (Derives.group three.toSum).toSum)
  obtain ⟨order, _, alike⟩ := ofTokens_derived first.toSum
  exact ⟨order, (alike grouped _ second.toSum).1.mpr rfl⟩

end LineCalculator

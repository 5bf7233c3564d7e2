import LineCalculator.Expression.Value

/- Expression trees: what an expression means apart from how it is written. The postfix order of a
   tree lists every token after its operands, and its value is that of the tree. -/
namespace LineCalculator

inductive Tree where
  | number (value : Int)
  | reference (name : Name) (value : Int)
  | sign (sign : Sign) (operand : Tree)
  | operation (operation : Operation) (left right : Tree)
  deriving DecidableEq, Repr

namespace Tree

def value : Tree → Except Fault Int
  | .number n => .ok n
  | .reference _ n => .ok n
  | .sign s t => t.value.map s.apply
  | .operation o l r => do
    let left ← l.value
    let right ← r.value
    o.apply left right

def postorder : Tree → List Token
  | .number n => [.number n]
  | .reference name n => [.reference name n]
  | .sign s t => t.postorder ++ [.sign s]
  | .operation o l r => l.postorder ++ r.postorder ++ [.operation o]

theorem foldlM_push_postorder (t : Tree) (stack : List Int) :
    t.postorder.foldlM Postfix.push stack = t.value.map (· :: stack) := by
  induction t generalizing stack with
  | number n => rfl
  | reference name n => rfl
  | sign s t ih =>
    rw [postorder, List.foldlM_append, ih]
    cases hv : t.value with
    | error fault => simp only [value, hv]; rfl
    | ok v => simp only [value, hv]; rfl
  | operation o l r hl hr =>
    rw [postorder, List.foldlM_append, List.foldlM_append, hl]
    cases hvl : l.value with
    | error fault => simp only [value, hvl]; rfl
    | ok left =>
      change (r.postorder.foldlM Postfix.push (left :: stack)) >>= _ = _
      rw [hr]
      cases hvr : r.value with
      | error fault => simp only [value, hvl, hvr]; rfl
      | ok right =>
        simp only [value, hvl, hvr]
        change ((o.apply left right).map (· :: stack) >>= pure) = (o.apply left right).map (· :: stack)
        exact bind_pure _

theorem value_postorder (t : Tree) : Postfix.value t.postorder = t.value := by
  rw [Postfix.value, foldlM_push_postorder]
  cases t.value <;> rfl

end Tree
end LineCalculator

import LineCalculator.Expression.Tree

/- The grammar of expressions over tokens. Operations of one rank group to the left, a sign belongs to
   the one factor behind it, and parentheses leave no trace in the tree. -/
namespace LineCalculator

inductive Level where
  | sum
  | term
  | factor
  deriving DecidableEq, Repr

/-- The tokens are a phrase of the level, and the tree is its structure. -/
inductive Derives : Level → List Token → Tree → Prop where
  | number (n : Int) : Derives .factor [.number n] (.number n)
  | reference (name : Name) (n : Int) : Derives .factor [.reference name n] (.reference name n)
  | group {ts : List Token} {t : Tree} (inner : Derives .sum ts t) :
      Derives .factor (.opening :: ts ++ [.closing]) t
  | sign {ts : List Token} {t : Tree} (s : Sign) (operand : Derives .factor ts t) :
      Derives .factor (.sign s :: ts) (.sign s t)
  | ofFactor {ts : List Token} {t : Tree} (only : Derives .factor ts t) : Derives .term ts t
  | product {ls rs : List Token} {l r : Tree} (o : Operation) (tight : o.rank = 2)
      (left : Derives .term ls l) (right : Derives .factor rs r) :
      Derives .term (ls ++ .operation o :: rs) (.operation o l r)
  | ofTerm {ts : List Token} {t : Tree} (only : Derives .term ts t) : Derives .sum ts t
  | sum {ls rs : List Token} {l r : Tree} (o : Operation) (loose : o.rank = 1)
      (left : Derives .sum ls l) (right : Derives .term rs r) :
      Derives .sum (ls ++ .operation o :: rs) (.operation o l r)

end LineCalculator

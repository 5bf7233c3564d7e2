import LineCalculator.Expression.Grammar
import LineCalculator.Proofs.Expression.Yard

/- The yard puts a phrase into the postorder of its tree. What a phrase leaves waiting binds at least
   as tight as its level, so the operation behind the phrase frees all of it and nothing below. -/
namespace LineCalculator

def Level.rank : Level → Nat
  | .sum => 1
  | .term => 2
  | .factor => 3

theorem Token.rank_of_isSign {t : Token} (h : t.isSign = true) : t.rank = Sign.rank := by
  cases t <;> simp_all [Token.isSign, Token.rank]

theorem Token.isSign_eq_false_of_rank {t : Token} (low : t.rank < Level.factor.rank) :
    t.isSign = false := by
  cases h : t.isSign with
  | false => rfl
  | true =>
    have high := Token.rank_of_isSign h
    simp only [Level.rank, Sign.rank] at low high
    omega

theorem Token.isParenthesis_eq_false_of_rank {t : Token} (high : 0 < t.rank) :
    t.isParenthesis = false := by
  cases t <;> simp_all [Token.isParenthesis, Token.rank]

namespace Yard

/-- Every stack top that a phrase of the level may stand on binds looser than the level. -/
def Under (level : Level) (below : List Token) : Prop := ∀ top ∈ below.head?, top.rank < level.rank

/-- Reading the tokens moves nothing of what stood below, what waits on it binds at least as tight as
    the level, and the placed tokens followed by the waiting ones are in the given order. -/
def Settles (level : Level) (start : Yard) (ts below order : List Token) : Prop :=
  ∃ waiting placed, start.steps ts = .ok ⟨waiting ++ below, placed⟩ ∧
    (∀ x ∈ waiting, level.rank ≤ x.rank) ∧ placed.reverse ++ waiting = order

theorem Settles.loosen {tight level : Level} (looser : level.rank ≤ tight.rank) {start : Yard}
    {ts below order : List Token} (h : Settles tight start ts below order) :
    Settles level start ts below order := by
  obtain ⟨waiting, placed, run, bound, same⟩ := h
  exact ⟨waiting, placed, run, fun x mem => Nat.le_trans looser (bound x mem), same⟩

theorem Settles.operation {level tight : Level} {o : Operation} (rank : o.rank = level.rank)
    (looser : level.rank < tight.rank) {start : Yard} {ls rs below before after : List Token}
    (under : Under level below) (left : Settles level start ls below before)
    (right : ∀ above placed, Under tight above →
      Settles tight ⟨above, placed⟩ rs above (placed.reverse ++ after)) :
    Settles level start (ls ++ .operation o :: rs) below (before ++ after ++ [.operation o]) := by
  obtain ⟨waiting, placed, run, bound, order⟩ := left
  have moved : step ⟨waiting ++ below, placed⟩ (.operation o) =
      .ok ⟨.operation o :: below, waiting.reverse ++ placed⟩ :=
    step_of_moves (.operation (by rwa [rank]) (by rwa [rank]))
  have higher : Under tight (.operation o :: below) := by
    simpa [Under, Token.rank, rank] using looser
  obtain ⟨signs, last, run', bound', order'⟩ := right _ (waiting.reverse ++ placed) higher
  refine ⟨signs ++ [.operation o], last, ?_, ?_, ?_⟩
  · rw [steps_append_of_ok run, steps_cons_of_ok moved]
    simpa using run'
  · intro x mem
    rcases List.mem_append.mp mem with inside | same
    · exact Nat.le_trans (Nat.le_of_lt looser) (bound' x inside)
    · have last : x = .operation o := by simpa using same
      simp [last, Token.rank, rank]
  · calc last.reverse ++ (signs ++ [.operation o])
        = (last.reverse ++ signs) ++ [.operation o] := by simp
      _ = (placed.reverse ++ waiting) ++ after ++ [.operation o] := by simp [order']
      _ = before ++ after ++ [.operation o] := by rw [order]

theorem Settles.group {signs below placed ts order : List Token}
    (free : ∀ x ∈ signs, x.isSign = true)
    (inner : Settles .sum ⟨.opening :: (signs ++ below), placed⟩ ts (.opening :: (signs ++ below)) order) :
    Settles .factor ⟨signs ++ below, placed⟩ (.opening :: ts ++ [.closing]) below (order ++ signs) := by
  obtain ⟨waiting, after, run, bound, same⟩ := inner
  have inside : ∀ x ∈ waiting, x ≠ .opening := by
    intro x mem isOpening
    have := bound x mem
    simp [isOpening, Level.rank, Token.rank] at this
  have opened : step ⟨signs ++ below, placed⟩ .opening =
      .ok ⟨.opening :: (signs ++ below), placed⟩ := rfl
  have closed : step ⟨waiting ++ .opening :: (signs ++ below), after⟩ .closing =
      .ok ⟨signs ++ below, waiting.reverse ++ after⟩ := step_of_moves (.close inside)
  refine ⟨signs, waiting.reverse ++ after, ?_, ?_, by simp [← same]⟩
  · rw [List.cons_append, steps_cons_of_ok opened, steps_append_of_ok run]
    exact steps_cons_of_ok closed []
  · intro x mem
    rw [Token.rank_of_isSign (free x mem)]
    decide

theorem Settles.operand {t : Token} (operand : t.isOperand = true) {signs below : List Token}
    (free : ∀ x ∈ signs, x.isSign = true) (under : Under .factor below) (placed : List Token) :
    Settles .factor ⟨signs ++ below, placed⟩ [t] below (placed.reverse ++ [t] ++ signs) := by
  have stays : ∀ top ∈ below.head?, top.isSign = false := by
    intro top mem
    exact Token.isSign_eq_false_of_rank (under top mem)
  have moved : step ⟨signs ++ below, placed⟩ t = .ok ⟨below, signs.reverse ++ t :: placed⟩ :=
    step_of_moves (.operand operand free stays)
  exact ⟨[], signs.reverse ++ t :: placed, steps_cons_of_ok moved [], by simp, by simp⟩

theorem settles_phrase {level : Level} {ts : List Token} {t : Tree} (h : Derives level ts t)
    (signs below placed : List Token) (free : ∀ x ∈ signs, x.isSign = true)
    (only : level ≠ .factor → signs = []) (under : Under level below) :
    Settles level ⟨signs ++ below, placed⟩ ts below
      (placed.reverse ++ t.postorder ++ signs) := by
  -- Signs in front of a factor wait with it, so the factor carries them through the induction.
  induction h generalizing signs below placed with
  | number n => exact Settles.operand rfl free under placed
  | reference name n => exact Settles.operand rfl free under placed
  | @group ts t inner ih =>
    have whole := ih [] (.opening :: (signs ++ below)) placed (by simp) (by simp)
      (by simp [Under, Token.rank, Level.rank])
    simpa using Settles.group free whole
  | @sign ts t s operand ih =>
    obtain ⟨waiting, after, run, bound, order⟩ :=
      ih (.sign s :: signs) below placed (by simpa [Token.isSign] using free) (by simp) under
    have pushed : step ⟨signs ++ below, placed⟩ (.sign s) =
        .ok ⟨.sign s :: signs ++ below, placed⟩ := rfl
    refine ⟨waiting, after, ?_, bound, by simpa [Tree.postorder] using order⟩
    rw [steps_cons_of_ok pushed, run]
  | @ofFactor ts t factor ih =>
    have none : signs = [] := only (by decide)
    have above : Under .factor below := fun top mem => Nat.lt_trans (under top mem) (by decide)
    exact (ih signs below placed free (by simp) above).loosen (by decide)
  | @product ls rs l r o rank left right ihl ihr =>
    have none : signs = [] := only (by decide)
    subst none
    have first := ihl [] below placed (by simp) (by simp) under
    have second : ∀ above placed, Under .factor above →
        Settles .factor ⟨above, placed⟩ rs above (placed.reverse ++ r.postorder) := by
      intro above placed higher
      simpa using ihr [] above placed (by simp) (by simp) higher
    simpa [Tree.postorder] using Settles.operation rank (by decide) under first second
  | @ofTerm ts t term ih =>
    have none : signs = [] := only (by decide)
    have above : Under .term below := fun top mem => Nat.lt_trans (under top mem) (by decide)
    exact (ih signs below placed free (by simp [none]) above).loosen (by decide)
  | @sum ls rs l r o rank left right ihl ihr =>
    have none : signs = [] := only (by decide)
    subst none
    have first := ihl [] below placed (by simp) (by simp) under
    have second : ∀ above placed, Under .term above →
        Settles .term ⟨above, placed⟩ rs above (placed.reverse ++ r.postorder) := by
      intro above placed higher
      simpa using ihr [] above placed (by simp) (by simp) higher
    simpa [Tree.postorder] using Settles.operation rank (by decide) under first second

end Yard

theorem Postfix.ofTokens_phrase {ts : List Token} {t : Tree} (h : Derives .sum ts t) :
    Postfix.ofTokens ts = .ok t.postorder := by
  obtain ⟨waiting, placed, run, bound, order⟩ :=
    Yard.settles_phrase h [] [] [] (by simp) (by simp) (by simp [Yard.Under])
  have none : waiting.any Token.isParenthesis = false := by
    rw [List.any_eq_false]
    intro x mem
    simp [Token.isParenthesis_eq_false_of_rank (bound x mem)]
  calc Postfix.ofTokens ts = Yard.finish ⟨waiting ++ [], placed⟩ := Postfix.ofTokens_of_steps run
    _ = .ok t.postorder := by simpa [Yard.finish, none] using order

end LineCalculator

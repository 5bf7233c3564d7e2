import Mathlib.Data.List.Chain
import LineCalculator.Proofs.Expression.Counting
import LineCalculator.Proofs.Expression.Meaning

/- Which lines with a value are well formed. Postfix order keeps no trace of where an operand stood, so
   only the numbers of operands and operations are ever compared. Where no operand follows another
   directly, the numbers give every fault away; where one does, an operation too many makes up for it. -/
namespace LineCalculator

def Token.beginsOperand : Token → Bool
  | .number _ | .reference _ _ | .opening => true
  | _ => false

/-- No operand or group stands directly behind another. -/
def Separate (ts : List Token) : Prop :=
  ts.IsChain fun a b => ¬(a.endsOperand = true ∧ b.beginsOperand = true)

instance (ts : List Token) : Decidable (Separate ts) :=
  inferInstanceAs (Decidable (List.IsChain _ ts))

/-- What may follow when operands are separate: the flag tells whether an operand has just ended. Of
    the faults, only a closing parenthesis or the end in place of an operand are left. -/
inductive Turns : Bool → List Token → Prop where
  | nil (ended : Bool) : Turns ended []
  | operand {t : Token} {ts : List Token} (operand : t.isOperand = true) (tail : Turns true ts) :
      Turns false (t :: ts)
  | operation {ts : List Token} (o : Operation) (tail : Turns false ts) :
      Turns true (.operation o :: ts)
  | sign {ts : List Token} (s : Sign) (tail : Turns false ts) : Turns false (.sign s :: ts)
  | opening {ts : List Token} (tail : Turns false ts) : Turns false (.opening :: ts)
  | closing {ts : List Token} (ended : Bool) (tail : Turns true ts) : Turns ended (.closing :: ts)

theorem Turns.of_spells {lookup : Lookup} {ended : Bool} {lexemes : List Lexeme} {ts : List Token}
    (h : Spells lookup ended lexemes ts)
    (fresh : ∀ t ∈ ts.head?, ¬(ended = true ∧ t.beginsOperand = true)) (separate : Separate ts) :
    Turns ended ts := by
  induction h with
  | nil ended => exact .nil ended
  | @cons ended l t ls ts first tail ih =>
    obtain ⟨next, rest⟩ := List.isChain_cons.mp separate
    have later : Turns t.endsOperand ts := ih next rest
    have start : t.beginsOperand = true → ended = false := by
      intro begins
      have := fresh t (by simp)
      simp_all
    rcases Lexeme.read_eq_ok first with ⟨_, n, _, _, rfl⟩ | ⟨name, n, _, _, rfl⟩ | ⟨c, _, mark⟩
    · rw [start rfl]
      exact .operand rfl later
    · rw [start rfl]
      exact .operand rfl later
    · rcases Token.ofMark_eq_ok mark with ⟨o, rfl, _, rfl⟩ | ⟨s, rfl, _, rfl⟩ | ⟨rfl, _⟩ | ⟨rfl, _⟩
      · exact .operation o later
      · exact .sign s later
      · rw [start rfl]
        exact .opening later
      · exact .closing ended later

theorem Token.isOperation_of_isOperand {t : Token} (h : t.isOperand = true) :
    t.isOperation = false := by
  cases t <;> simp_all [isOperand, isOperation]

theorem Turns.count_le {ended : Bool} {ts : List Token} (h : Turns ended ts) :
    ts.countP Token.isOperand + ended.toNat ≤ ts.countP Token.isOperation + 1 := by
  induction h with
  | nil ended => cases ended <;> decide
  | operand operand tail ih =>
    simp only [List.countP_cons, operand, Token.isOperation_of_isOperand operand, Bool.toNat_true,
      Bool.toNat_false, if_true, Bool.false_eq_true, if_false] at ih ⊢
    omega
  | operation o tail ih =>
    simp [List.countP_cons, Token.isOperand, Token.isOperation] at ih ⊢
    omega
  | sign s tail ih => simpa [List.countP_cons, Token.isOperand, Token.isOperation] using ih
  | opening tail ih => simpa [List.countP_cons, Token.isOperand, Token.isOperation] using ih
  | closing ended tail ih =>
    have := Bool.toNat_le ended
    simp [Token.isOperand, Token.isOperation] at ih ⊢
    omega

/-- Any factor behind these tokens makes them a sum. -/
def Awaits (before : List Token) : Prop :=
  ∀ ts t, Derives .factor ts t → ∃ u, Derives .sum (before ++ ts) u

theorem awaits_nil : Awaits [] := fun _ _ factor => ⟨_, .ofTerm (.ofFactor factor)⟩

theorem awaits_sign {before : List Token} (h : Awaits before) (s : Sign) :
    Awaits (before ++ [.sign s]) := by
  intro ts t factor
  simpa using h _ _ (.sign s factor)

theorem awaits_operation {before : List Token} {t : Tree} (h : Derives .sum before t) (o : Operation) :
    Awaits (before ++ [.operation o]) := by
  intro ts u factor
  rw [List.append_assoc, List.singleton_append]
  by_cases loose : o.rank = 1
  · exact ⟨_, .sum o loose h (.ofFactor factor)⟩
  · have tight : o.rank = 2 := by cases o <;> simp_all [Operation.rank]
    -- A product binds to the last term of the sum only.
    cases h with
    | ofTerm only => exact ⟨_, .ofTerm (.product o tight only factor)⟩
    | @sum ls rs l r p loose left right =>
      have longer := Derives.sum p loose left (.product o tight right factor)
      exact ⟨_, by simpa using longer⟩

/-- What has been read of a group: a whole sum, or a front part that awaits a factor. -/
def Stands : Bool → List Token → Prop
  | true, current => ∃ t, Derives .sum current t
  | false, current => Awaits current

/-- The open groups, innermost first, each with what stands in front of it. -/
def enclosed : List (List Token) → List Token → List Token
  | [], current => current
  | frame :: outer, current => enclosed outer (frame ++ .opening :: current)

theorem enclosed_append (outer : List (List Token)) (current ts : List Token) :
    enclosed outer (current ++ ts) = enclosed outer current ++ ts := by
  induction outer generalizing current with
  | nil => rfl
  | cons frame outer ih => simpa [enclosed] using ih (frame ++ .opening :: current)

theorem Turns.derives {ended : Bool} {ts : List Token} (h : Turns ended ts)
    (outer : List (List Token)) (current : List Token) (stands : Stands ended current)
    (frames : ∀ frame ∈ outer, Awaits frame) (balanced : Balanced outer.length ts)
    (enough : ts.countP Token.isOperation + 1 ≤ ts.countP Token.isOperand + ended.toNat) :
    ∃ t, Derives .sum (enclosed outer current ++ ts) t := by
  induction h generalizing outer current with
  | nil ended =>
    cases ended with
    | false => simp at enough
    | true =>
      have none : outer = [] := List.length_eq_zero_iff.mp balanced
      subst none
      simpa [enclosed, Stands] using stands
  | @operand t ts operand tail ih =>
    have sum : Stands true (current ++ [t]) := by
      cases t with
      | number n => exact stands _ _ (.number n)
      | reference name n => exact stands _ _ (.reference name n)
      | operation o => simp [Token.isOperand] at operand
      | sign s => simp [Token.isOperand] at operand
      | opening => simp [Token.isOperand] at operand
      | closing => simp [Token.isOperand] at operand
    have inside : Balanced outer.length ts := by
      cases t <;> simp_all [Token.isOperand, Balanced]
    have whole := ih outer _ sum frames inside (by
      simp only [List.countP_cons, operand, Token.isOperation_of_isOperand operand, Bool.toNat_true,
        Bool.toNat_false, if_true, Bool.false_eq_true, if_false] at enough ⊢
      omega)
    simpa [enclosed_append] using whole
  | @operation ts o tail ih =>
    obtain ⟨t, sum⟩ := stands
    have next : Stands false (current ++ [.operation o]) := awaits_operation sum o
    have whole := ih outer _ next frames balanced (by
      simp [List.countP_cons, Token.isOperand, Token.isOperation] at enough ⊢
      omega)
    simpa [enclosed_append] using whole
  | @sign ts s tail ih =>
    have next : Stands false (current ++ [.sign s]) := awaits_sign stands s
    have whole := ih outer _ next frames balanced (by
      simpa [List.countP_cons, Token.isOperand, Token.isOperation] using enough)
    simpa [enclosed_append] using whole
  | @opening ts tail ih =>
    have whole := ih (current :: outer) [] awaits_nil (by simpa using ⟨stands, frames⟩) balanced (by
      simpa [List.countP_cons, Token.isOperand, Token.isOperation] using enough)
    simpa [enclosed, enclosed_append] using whole
  | @closing ts ended tail ih =>
    have bound := tail.count_le
    cases ended with
    | false =>
      simp [Token.isOperand, Token.isOperation] at enough bound
      omega
    | true =>
      obtain ⟨depth, same, inside⟩ := balanced
      cases outer with
      | nil => simp at same
      | cons frame outer =>
        have fits : outer.length = depth := by simpa using same
        obtain ⟨t, sum⟩ := stands
        have closed : Stands true (frame ++ (.opening :: current ++ [.closing])) :=
          frames frame (by simp) _ _ (.group sum)
        have whole := ih outer _ closed (fun f mem => frames f (by simp [mem])) (by rwa [fits]) (by
          simpa [List.countP_cons, Token.isOperand, Token.isOperation] using enough)
        have shape : enclosed (frame :: outer) current ++ .closing :: ts =
            enclosed outer (frame ++ (.opening :: current ++ [.closing])) ++ ts := by
          rw [show frame ++ (.opening :: current ++ [.closing]) =
            (frame ++ .opening :: current) ++ [.closing] by simp, enclosed_append]
          simp [enclosed]
        rwa [shape]

theorem separate_of_derives {level : Level} {ts : List Token} {t : Tree} (h : Derives level ts t) :
    Separate ts := by
  have around : ∀ {ls rs : List Token} (o : Operation), Separate ls → Separate rs →
      Separate (ls ++ .operation o :: rs) := by
    intro ls rs o left right
    refine List.isChain_append.mpr ⟨left, List.isChain_cons.mpr ⟨?_, right⟩, ?_⟩
    · simp [Token.endsOperand]
    · simp [Token.beginsOperand]
  induction h with
  | number n => exact .singleton _
  | reference name n => exact .singleton _
  | group inner ih =>
    refine List.isChain_append.mpr ⟨List.isChain_cons.mpr ⟨?_, ih⟩, .singleton _, ?_⟩
    · simp [Token.endsOperand]
    · simp [Token.beginsOperand]
  | sign s operand ih => exact List.isChain_cons.mpr ⟨by simp [Token.endsOperand], ih⟩
  | ofFactor only ih => exact ih
  | product o tight left right ihl ihr => exact around o ihl ihr
  | ofTerm only ih => exact ih
  | sum o loose left right ihl ihr => exact around o ihl ihr

theorem derives_of_separate {lookup : Lookup} {lexemes : List Lexeme} {ts out : List Token} {v : Int}
    (spells : Spells lookup false lexemes ts) (order : Postfix.ofTokens ts = .ok out)
    (value : Postfix.value out = .ok v) (separate : Separate ts) : ∃ t, Derives .sum ts t := by
  obtain ⟨balanced, kept⟩ := Postfix.ofTokens_eq_ok order
  have counts := Postfix.count_of_value value
  rw [kept _ rfl rfl, kept _ rfl rfl] at counts
  have turns := Turns.of_spells spells (by simp) separate
  simpa [enclosed] using turns.derives [] [] awaits_nil (by simp) balanced (by simp [counts])

theorem separate_of_writes {lookup : Lookup} {text : List Char} {f : Formula} {ts : List Token}
    (written : Writes .sum text f) (spells : Spells lookup false (Lexeme.cut text) ts) :
    Separate ts := by
  have known : ∀ name ∈ f.names, lookup name = some ((lookup name).getD 0) :=
    fun name mem => spells.known (written.word_mem_cut mem)
  obtain ⟨us, derived, leads⟩ := written.leads known
  have same : us = ts := leads.spells.unique spells
  rw [← same]
  exact separate_of_derives derived

/-- Of the lines that have a value, exactly those are well formed whose operands are separate. -/
theorem Line.derivable_iff_separate (vars : Variables) (line : List Char) (v : Int)
    (answered : (Line.answer vars line).1 = .ok (some v)) :
    ∃ ts, vars.tokens line = .ok ts ∧
      ((∃ f, Writes .sum (Text.dropBlanks line) f) ↔ Separate ts) := by
  obtain ⟨ts, out, spells, order, value⟩ := Line.tokens_of_answer answered
  refine ⟨ts, Token.ofText_of_spells spells, ?_, ?_⟩
  · rintro ⟨f, written⟩
    exact separate_of_writes written spells
  · intro separate
    obtain ⟨t, derived⟩ := derives_of_separate spells order value separate
    obtain ⟨f, written⟩ := Writes.of_spells derived spells (Lexeme.cut_proper _)
    exact ⟨f, by rwa [Lexeme.cut_text] at written⟩

theorem Line.derivable_iff_separate_product :
    (Line.answer .empty "2 * (3 - 1)".toList).1 = .ok (some 4) ∧
      ∃ ts, Variables.empty.tokens "2 * (3 - 1)".toList = .ok ts ∧
        ((∃ f, Writes .sum (Text.dropBlanks "2 * (3 - 1)".toList) f) ↔ Separate ts) :=
  ⟨by decide, Line.derivable_iff_separate .empty _ 4 (by decide)⟩

theorem Line.value_of_groups_side_by_side :
    (Line.answer .empty "(1)(2)+".toList).1 = .ok (some 3) ∧
      ¬ ∃ f, Writes .sum (Text.dropBlanks "(1)(2)+".toList) f := by
  refine ⟨by decide, ?_⟩
  rintro ⟨f, written⟩
  have spells : Spells Variables.empty.get? false (Lexeme.cut (Text.dropBlanks "(1)(2)+".toList))
      [.opening, .number 1, .closing, .opening, .number 2, .closing, .operation .add] :=
    Spells.ofItems_eq (by decide)
  have separate := separate_of_writes written spells
  exact absurd separate (by decide)

end LineCalculator

import LineCalculator.Expression.Value
import LineCalculator.Proofs.Expression.Reading

/- Other names for the words of an expression. Between the lexemes and the value nothing looks into a
   name: names are only handed to the table. So over a table that knows the new names as the old one
   knows the old names, the tokens differ in their names alone, and the value or fault is the same. -/
namespace LineCalculator

def Lexeme.rename (f : Name → Name) : Lexeme → Lexeme
  | .word name => .word (f name)
  | l => l

def Token.rename (f : Name → Name) : Token → Token
  | .reference name value => .reference (f name) value
  | t => t

section
variable (f : Name → Name)

namespace Token

@[simp] theorem rank_rename (t : Token) : (t.rename f).rank = t.rank := by
  cases t <;> rfl

@[simp] theorem isSign_rename (t : Token) : (t.rename f).isSign = t.isSign := by
  cases t <;> rfl

@[simp] theorem isParenthesis_rename (t : Token) : (t.rename f).isParenthesis = t.isParenthesis := by
  cases t <;> rfl

@[simp] theorem endsOperand_rename (t : Token) : (t.rename f).endsOperand = t.endsOperand := by
  cases t <;> rfl

@[simp] theorem rename_eq_opening (t : Token) : t.rename f = .opening ↔ t = .opening := by
  cases t <;> simp [rename]

theorem map_rename_ofMark (ended : Bool) (c : Char) : (ofMark ended c).map (rename f) = ofMark ended c := by
  cases read : ofMark ended c with
  | error fault => rfl
  | ok t =>
    rcases ofMark_eq_ok read with ⟨_, rfl, _⟩ | ⟨_, rfl, _⟩ | ⟨rfl, _⟩ | ⟨rfl, _⟩
    all_goals rfl

end Token

namespace Lexeme
variable {f} {lookup other : Lookup}

theorem read_rename {l : Lexeme} (ended : Bool)
    (held : ∀ name, l = .word name → other (f name) = lookup name) :
    ((l.rename f).read other ended).item = (l.read lookup ended).item.map (Token.rename f) := by
  cases l with
  | digits text =>
    simp only [rename, read]
    cases Decimal.readNat? text <;> rfl
  | word name =>
    simp only [rename, read, held name rfl]
    cases lookup name <;> rfl
  | mark c => exact (Token.map_rename_ofMark f ended c).symm

theorem items_rename {lexemes : List Lexeme} (ended : Bool)
    (held : ∀ name, .word name ∈ lexemes → other (f name) = lookup name) :
    items other ended (lexemes.map (rename f)) =
      (items lookup ended lexemes).map (Except.map (Token.rename f)) := by
  induction lexemes generalizing ended with
  | nil => rfl
  | cons l rest ih =>
    have first : ((l.rename f).read other ended).item = (l.read lookup ended).item.map (Token.rename f) :=
      read_rename ended fun name same => held name (by simp [same])
    have later := fun behind => ih behind fun name mem => held name (List.mem_cons_of_mem l mem)
    rw [List.map_cons]
    cases read : (l.read lookup ended).item with
    | error fault =>
      rw [read] at first
      rw [items_cons_of_error first, items_cons_of_error read]
      rfl
    | ok t =>
      rw [read] at first
      rw [items_cons_of_ok first, items_cons_of_ok read, Token.endsOperand_rename, later]
      rfl

end Lexeme

namespace Yard

def rename (yard : Yard) : Yard :=
  ⟨yard.stack.map (Token.rename f), yard.placed.map (Token.rename f)⟩

theorem release_rename {leaves : Token → Bool} (blind : ∀ t : Token, leaves (t.rename f) = leaves t)
    (yard : Yard) : (yard.rename f).release leaves = (yard.release leaves).rename f := by
  have same : leaves ∘ Token.rename f = leaves := funext blind
  simp [release, rename, List.takeWhile_map, List.dropWhile_map, same]

theorem step_rename (yard : Yard) (t : Token) :
    (yard.rename f).step (t.rename f) = (yard.step t).map (rename f) := by
  have signs := fun yard => release_rename f (Token.isSign_rename f) yard
  cases t with
  | number n => exact congrArg Except.ok (signs (yard.place (.number n)))
  | reference name n => exact congrArg Except.ok (signs (yard.place (.reference name n)))
  | operation o =>
    have freed : (yard.rename f).release (fun top => o.rank ≤ top.rank) =
        (yard.release fun top => o.rank ≤ top.rank).rename f :=
      release_rename f (fun t => by simp) yard
    simp only [step, Token.rename, freed]
    rfl
  | sign s => rfl
  | opening => rfl
  | closing =>
    have freed : (yard.rename f).release (· ≠ .opening) = (yard.release (· ≠ .opening)).rename f :=
      release_rename f (fun t => by simp) yard
    simp only [step, Token.rename, freed]
    generalize yard.release (· ≠ .opening) = group
    obtain ⟨stack, placed⟩ := group
    cases stack <;> rfl

theorem finish_rename (yard : Yard) :
    (yard.rename f).finish = yard.finish.map (List.map (Token.rename f)) := by
  have same : Token.isParenthesis ∘ Token.rename f = Token.isParenthesis :=
    funext (Token.isParenthesis_rename f)
  simp only [finish, rename, List.any_map, same]
  split
  · rfl
  · simp [Except.map]

theorem convert_rename (yard : Yard) (items : List (Except Fault Token)) :
    ((yard.rename f).convert (items.map (Except.map (Token.rename f)))).result =
      (yard.convert items).result.map (List.map (Token.rename f)) := by
  induction items generalizing yard with
  | nil => exact finish_rename f yard
  | cons item rest ih =>
    cases item with
    | error fault => rfl
    | ok t =>
      have first := step_rename f yard t
      cases moved : yard.step t with
      | error fault =>
        rw [moved] at first
        simp only [List.map_cons, Except.map, convert] at first ⊢
        simp only [first, moved]
      | ok next =>
        rw [moved] at first
        simp only [List.map_cons, Except.map, convert] at first ⊢
        simp only [first, moved]
        exact ih next

end Yard

namespace Postfix

theorem push_rename (stack : List Int) (t : Token) : push stack (t.rename f) = push stack t := by
  cases t <;> rfl

theorem value_rename (ts : List Token) : value (ts.map (Token.rename f)) = value ts := by
  simp only [value, List.foldlM_map, push_rename]

variable {f}

theorem ofText_rename {lookup other : Lookup} {text renamed : List Char}
    (cut : Lexeme.cut renamed = (Lexeme.cut text).map (Lexeme.rename f))
    (held : ∀ name, .word name ∈ Lexeme.cut text → other (f name) = lookup name) :
    ofText other renamed = (ofText lookup text).map (List.map (Token.rename f)) := by
  have items : Token.items other renamed =
      (Token.items lookup text).map (Except.map (Token.rename f)) := by
    rw [Token.items, cut]
    exact Lexeme.items_rename false held
  rw [ofText, items]
  exact Yard.convert_rename f Yard.empty (Token.items lookup text)

end Postfix

end

end LineCalculator

import Std.Data.ExtTreeMap
import LineCalculator.Name

/- The variables of a console: a finite map from names to integers. Two tables with the same values
   are equal, however they came about. -/
namespace LineCalculator

structure Variables where
  table : Std.ExtTreeMap Name Int

namespace Variables

def empty : Variables := ⟨∅⟩

def assign (vars : Variables) (name : Name) (value : Int) : Variables :=
  ⟨vars.table.insert name value⟩

def get? (vars : Variables) (name : Name) : Option Int := vars.table[name]?

def contains (vars : Variables) (name : Name) : Bool := vars.table.contains name

def size (vars : Variables) : Nat := vars.table.size

def isEmpty (vars : Variables) : Bool := vars.table.isEmpty

def ofList (pairs : List (Name × Int)) : Variables :=
  pairs.foldl (fun vars (name, value) => vars.assign name value) empty

@[simp] theorem get?_empty (name : Name) : empty.get? name = none := by
  simp [get?, empty]

theorem get?_assign (vars : Variables) (name : Name) (value : Int) (other : Name) :
    (vars.assign name value).get? other =
      if name = other then some value else vars.get? other := by
  simp [get?, assign, Std.ExtTreeMap.getElem?_insert]

theorem contains_eq (vars : Variables) (name : Name) :
    vars.contains name = (vars.get? name).isSome :=
  Std.ExtTreeMap.contains_eq_isSome_getElem?

theorem isEmpty_iff (vars : Variables) :
    vars.isEmpty = true ↔ vars.size = 0 := by
  unfold isEmpty size
  rw [Std.ExtTreeMap.isEmpty_eq_size_beq_zero, beq_iff_eq]

@[ext] theorem ext {a b : Variables} (same : ∀ name, a.get? name = b.get? name) : a = b := by
  obtain ⟨a⟩ := a
  obtain ⟨b⟩ := b
  congr 1
  exact Std.ExtTreeMap.ext_getElem? fun name => same name

end Variables
end LineCalculator

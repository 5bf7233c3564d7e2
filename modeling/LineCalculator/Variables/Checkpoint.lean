import LineCalculator.Variables.Basic

/- Variables with one saved copy to return to. The copy is a value of its own: nothing done to the
   current variables changes it. -/
namespace LineCalculator

structure Checkpoint where
  current : Variables
  saved : Variables

namespace Checkpoint

inductive Action where
  | assign (name : Name) (value : Int)
  | get (name : Name)
  | contains (name : Name)
  | isEmpty
  | save
  | restore
  deriving DecidableEq, Repr

inductive Answer where
  | done
  | value (value : Option Int)
  | truth (holds : Bool)
  deriving DecidableEq, Repr

def empty : Checkpoint := ⟨.empty, .empty⟩

def step (checkpoint : Checkpoint) : Action → Answer × Checkpoint
  | .assign name value =>
    (.done, { checkpoint with current := checkpoint.current.assign name value })
  | .get name => (.value (checkpoint.current.get? name), checkpoint)
  | .contains name => (.truth (checkpoint.current.contains name), checkpoint)
  | .isEmpty => (.truth checkpoint.current.isEmpty, checkpoint)
  | .save => (.done, { checkpoint with saved := checkpoint.current })
  | .restore => (.done, { checkpoint with current := checkpoint.saved })

def run (checkpoint : Checkpoint) : List Action → List (Answer × Variables)
  | [] => []
  | action :: rest =>
    let (answer, after) := checkpoint.step action
    (answer, after.current) :: after.run rest

end Checkpoint
end LineCalculator

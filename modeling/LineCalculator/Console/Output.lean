/- Where bytes are written. An output may take all of them, or fail after a part; when and why it fails
   is its own affair. -/
namespace LineCalculator

structure Uptake (ω : Type) where
  taken : List UInt8
  output : ω
  failure : Option String

class Output (ω : Type) where
  put : ω → List UInt8 → Uptake ω

/-- The number of bytes that an output still takes; without one it takes all. -/
abbrev Room := Option Nat

namespace Room

def writeFailed : String := "write failed"

def put : Room → List UInt8 → Uptake Room
  | none, bytes => ⟨bytes, none, none⟩
  | some room, bytes =>
    if bytes.length ≤ room then ⟨bytes, some (room - bytes.length), none⟩
    else ⟨bytes.take room, some 0, some writeFailed⟩

instance : Output Room := ⟨put⟩

end Room
end LineCalculator

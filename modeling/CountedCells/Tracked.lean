import CountedCells.Heap.Release
import CountedCells.Text.Layout

/-!
# Tracked: numbers whose references are watched

The plainest values a cell can hold: numbers, which own nothing. With them the events of taking
and giving back references show exactly what the heap does to the values it is given.
-/

namespace CountedCells

/-- A number. -/
structure Tracked where
  /-- the number -/
  number : Int64
  deriving DecidableEq, Inhabited, Repr

namespace Tracked

instance : Host Tracked where
  default := ⟨0⟩
  ref _ := none
  ref_default := rfl

/-- The layout of a number. -/
def layout (t : Tracked) : Text.Layout := .variant "Tracked" [.leaf (toString t.number.toInt)]

end Tracked
end CountedCells

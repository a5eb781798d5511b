import CountedCells.Datum.Basic

/-!
# Making values from plain data

Every plain type has one form as a value. Lists become lists and optional things become optional
values, item by item.
-/

namespace CountedCells

/-- Types whose elements are values in one way. -/
class ToDatum (α : Type) where
  /-- the value of an element -/
  toDatum : α → Datum

export ToDatum (toDatum)

namespace ToDatum

instance : ToDatum Unit := ⟨fun _ => .unit⟩
instance : ToDatum Bool := ⟨.bool⟩
instance : ToDatum Char := ⟨.char⟩
instance : ToDatum Int64 := ⟨.int⟩
instance : ToDatum Int32 := ⟨fun n => .int n.toInt64⟩
instance : ToDatum Binary64 := ⟨.float⟩
instance : ToDatum String := ⟨.text⟩
instance : ToDatum Pointer := ⟨.pointer⟩

instance {α : Type} [ToDatum α] : ToDatum (List α) := ⟨fun xs => .list (xs.map toDatum)⟩

instance {α : Type} [ToDatum α] : ToDatum (Option α) where
  toDatum
    | none => .absent
    | some x => .present (toDatum x)

end ToDatum
end CountedCells

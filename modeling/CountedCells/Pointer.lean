import CountedCells.Text.Quoted

/-!
# Pointer: counted references to blocks of cells

Cells live in **blocks**, one or more cells that are made and destroyed together. Blocks are
numbered in the order in which they are made, and a number is never used again, so the number is
the identity of the block for good.

A `Pointer` is null or denotes a block, with the number of cells behind it. Pointers are compared
by their `Address` alone, whatever is stored in the cells and however many there are; all null
pointers have the address of one sentinel.

A block is kept by its owners. A `Ref` is one such ownership: of a block, or of a shared
**payload**, the immutable contents of a compound value.
-/

namespace CountedCells

/-- The number of a block, in order of allocation. -/
abbrev BlockId := Nat

/-- The number of a shared payload, in order of creation. -/
abbrev PayloadId := Nat

/-- A pointer to nothing, or to a block of cells. -/
inductive Pointer where
  /-- points to nothing -/
  | null
  /-- points to the `size` cells of a block -/
  | cells (block : BlockId) (size : Nat)
  deriving DecidableEq, Inhabited, Repr

/-- Where a pointer points, or what it is rebuilt from. -/
inductive Address where
  /-- to the sentinel that stands for nothing -/
  | sentinel
  /-- to a block -/
  | block (id : BlockId)
  /-- the number zero, where nothing ever is -/
  | zero
  deriving DecidableEq, Inhabited, Repr

/-- A place as a message names it. -/
inductive Location where
  /-- a block -/
  | block (id : BlockId)
  /-- a plain number -/
  | number (n : Nat)
  deriving DecidableEq, Inhabited, Repr

/-- The text of a location: a block by its number, a plain number in hexadecimal digits. -/
def Location.render : Location → String
  | block b => "@" ++ toString b
  | number n => "0x" ++ Text.hex n

/-- One reference that somebody owns. -/
inductive Ref where
  /-- to a block, through a pointer with this number of cells -/
  | block (id : BlockId) (size : Nat)
  /-- to a shared payload -/
  | payload (id : PayloadId)
  deriving DecidableEq, Inhabited, Repr

namespace Pointer

/-- Whether it points to nothing. -/
def isNull : Pointer → Bool
  | null => true
  | cells _ _ => false

/-- The number of cells behind it; a null pointer counts as one cell. -/
def size : Pointer → Nat
  | null => 1
  | cells _ n => n

/-- Whether there is more than one cell behind it. -/
def isCollection (p : Pointer) : Bool := 1 < p.size

/-- What the pointer is compared by. -/
def address : Pointer → Address
  | null => .sentinel
  | cells b _ => .block b

/-- Equality by address. -/
def same (p q : Pointer) : Bool := p.address == q.address

/-- The numbers a hash of the pointer is computed from; they depend on the address alone. -/
def feed : Pointer → List Nat
  | null => [0, 0]
  | cells b _ => [1, b]

/-- The reference that the pointer owns. -/
def ref : Pointer → Option Ref
  | null => none
  | cells b n => some (.block b n)

/-- The text of a pointer; the number of cells is left out for a single one. -/
def render : Pointer → String
  | null => "<null pointer>"
  | cells b 1 => "<pointer " ++ (Location.block b).render ++ ">"
  | cells b n => "<pointer " ++ (Location.block b).render ++ "; " ++ toString n ++ ">"

/-! ## Identity -/

theorem same_iff {p q : Pointer} : p.same q = true ↔ p.address = q.address := by
  simp [same]

theorem feed_eq_iff {p q : Pointer} : p.feed = q.feed ↔ p.same q = true := by
  rw [same_iff]
  cases p <;> cases q <;> simp [feed, address]

end Pointer
end CountedCells

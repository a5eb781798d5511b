import CountedCells.Attempt
import CountedCells.Config
import CountedCells.Error

/-!
# The heap: blocks of cells, shared payloads, counts and the trace

A heap holds what is counted:

* **blocks** of cells. The count of a block sits in its first cell; the other cells keep a count
  of one. A cell is unset until it is first written.
* **payloads**, the shared contents of compound values: how many values share the content, and
  the parts whose references the content owns.

Blocks and payloads are numbered by their place in two lists that only grow, so a number is never
used twice. A destroyed block leaves an empty place; a payload that nobody shares any more has no
parts.

Next to these the heap keeps its statistics, the limit on live cells, a flag that is lost for good
when a pointer is rebuilt from a bare address, and the trace of everything that happened. Its memory
comes from a `System`, which decides on its own which requests it refuses.

An access relies on the block being there, and on the cell or the length that it was told. One that
finds otherwise has no meaning; nothing here prevents it, but the heap keeps it on record as a
**stray**. A heap without strays was only ever accessed where there was something to access.

What cells hold is up to a `Host`: all that matters here is which reference a value owns, if any,
and that there is a default value that owns none.
-/

namespace CountedCells

open CountedCells.Text (Layout)

/-- Types of values that cells can hold. -/
class Host (V : Type) extends Inhabited V where
  /-- the reference that a value owns -/
  ref : V → Option Ref
  /-- the default value owns none -/
  ref_default : ref default = none

/-! ## Cells and blocks -/

/-- One cell. -/
structure Cell (V : Type) where
  /-- the count of the block, in its first cell -/
  count : Nat
  /-- the stored value, if the cell has been written -/
  value : Option V
  deriving Inhabited

/-- A cell that was never written. -/
def Cell.unset {V : Type} : Cell V := ⟨1, none⟩

/-- One or more cells that are made and destroyed together. -/
structure Block (V : Type) where
  /-- the first cell, with the count of the block -/
  head : Cell V
  /-- the other cells -/
  rest : List (Cell V)
  deriving Inhabited

namespace Block

variable {V : Type}

/-- A fresh block of `n` cells, at least one. -/
def fresh (n : Nat) : Block V := ⟨.unset, List.replicate (n - 1) .unset⟩

/-- The cells in order. -/
def cells (b : Block V) : List (Cell V) := b.head :: b.rest

/-- The number of cells. -/
def size (b : Block V) : Nat := b.rest.length + 1

/-- The count of the block. -/
def count (b : Block V) : Nat := b.head.count

/-- The block with another count. -/
def withCount (b : Block V) (n : Nat) : Block V := { b with head.count := n }

/-- The value in a cell, if there is such a cell and it was written. -/
def value? (b : Block V) (i : Nat) : Option V := b.cells[i]?.bind Cell.value

/-- The block with the content of one cell changed. -/
def withValue (b : Block V) (i : Nat) (v : Option V) : Block V :=
  match i with
  | 0 => { b with head.value := v }
  | i + 1 => { b with rest := b.rest.modify i fun c => { c with value := v } }

/-- The values in the first `n` cells, in order. -/
def values (b : Block V) (n : Nat) : List V := (b.cells.take n).filterMap Cell.value

@[simp] theorem length_cells (b : Block V) : b.cells.length = b.size := rfl

@[simp] theorem size_withCount (b : Block V) (n : Nat) : (b.withCount n).size = b.size := rfl

@[simp] theorem size_withValue (b : Block V) (i : Nat) (v : Option V) :
    (b.withValue i v).size = b.size := by
  cases i <;> simp [withValue, size]

theorem length_values_le (b : Block V) (n : Nat) : (b.values n).length ≤ b.size := by
  have h₁ := List.length_filterMap_le Cell.value (b.cells.take n)
  have h₂ := List.length_take_le' n b.cells
  simp only [length_cells] at h₂
  exact Nat.le_trans h₁ h₂

end Block

/-! ## Payloads, statistics, events -/

/-- The shared content of a compound value. -/
structure Payload (V : Type) where
  /-- how many values share it -/
  shares : Nat
  /-- the values inside, whose references the content owns -/
  parts : List V
  deriving Inhabited

/-- How much is live. -/
structure Stats where
  /-- the cells of the blocks that have not been destroyed -/
  liveCells : Nat := 0
  /-- the blocks that have not been destroyed -/
  liveBlocks : Nat := 0
  deriving DecidableEq, Inhabited, Repr

/-- The layout of the statistics. -/
def Stats.layout (s : Stats) : Layout :=
  .fields "HeapStats"
    [("live_units", .leaf (toString s.liveCells)), ("live_blocks", .leaf (toString s.liveBlocks))]

/-- For whom a reference to a value is taken or given back. -/
inductive Holder where
  /-- for a cell that stores the value -/
  | cell
  /-- for whoever called -/
  | caller
  deriving DecidableEq, Inhabited, Repr

/-- What happened. -/
inductive Event (V : Type) where
  /-- a block was made -/
  | allocated (cells : Nat) (block : BlockId)
  /-- a block was destroyed -/
  | destroyed (cells : Nat) (block : BlockId)
  /-- a write through a null pointer made a cell -/
  | upgraded (block : BlockId)
  /-- the first pointer was rebuilt from a bare address -/
  | unstable
  /-- a pointer was rebuilt from a bare address -/
  | rebuilt (block : BlockId) (size : Nat)
  /-- a pointer to a block whose count is zero was dropped -/
  | droppedExpired (block : BlockId)
  /-- a new reference to a value was taken; `stats` is how much was live then -/
  | acquired (holder : Holder) (value : V) (stats : Stats)
  /-- a reference to a value was given back; `stats` is how much was live then -/
  | disowned (holder : Holder) (value : V) (stats : Stats)

/-- What an access to a block relies on. -/
inductive Access where
  /-- the block is there and has a cell `i` -/
  | cell (block : BlockId) (i : Nat)
  /-- the block is there and has `n` cells -/
  | whole (block : BlockId) (n : Nat)
  deriving DecidableEq, Inhabited, Repr

/-! ## Where the memory comes from -/

/-- What gives out memory. Which requests it refuses is its own affair, but live cells lie apart in
an address space of 64 bits. -/
structure System where
  /-- whether it refuses `n` more cells next to what is live -/
  refuses : (live : Stats) → (n : Nat) → Bool
  /-- it never gives more cells than there are addresses -/
  bounded : ∀ live n, refuses live n = false → live.liveCells + n < Config.countRange

/-- A system with memory for so many cells, which refuses only what does not fit. -/
def System.ofMemory (cells : UInt64) : System where
  refuses live n := decide (cells.toNat < live.liveCells + n)
  bounded live n h := by
    have := cells.toNat_lt
    simp only [decide_eq_false_iff_not, Config.countRange, UInt64.size] at h ⊢
    omega

instance System.instInhabited : Inhabited System := ⟨.ofMemory 0⟩

/-! ## The heap -/

/-- Everything that is counted, and what is known about it. -/
structure Heap (V : Type) where
  /-- what gives out memory -/
  system : System
  /-- the blocks by number; destroyed ones leave an empty place -/
  blocks : List (Option (Block V)) := []
  /-- the payloads by number -/
  payloads : List (Payload V) := []
  /-- how much is live -/
  stats : Stats := {}
  /-- the limit on live cells -/
  config : Config := {}
  /-- whether no pointer was ever rebuilt from a bare address -/
  stable : Bool := true
  /-- what happened, the latest first -/
  trace : List (Event V) := []
  /-- the accesses that did not find what they rely on, the latest first -/
  strays : List Access := []
  deriving Inhabited

namespace Heap

variable {V : Type}

/-- A heap where nothing has happened yet. -/
def empty (system : System) : Heap V := { system }

/-- The block of a number, unless it was destroyed. -/
def block? (h : Heap V) (b : BlockId) : Option (Block V) := h.blocks[b]?.join

/-- The count of a block; zero for a destroyed one. -/
def count (h : Heap V) (b : BlockId) : Nat := (h.block? b).elim 0 Block.count

/-- The count in a cell; zero if there is no such cell. -/
def countAt (h : Heap V) (b : BlockId) (i : Nat) : Nat :=
  (((h.block? b).bind (·.cells[i]?)).map Cell.count).getD 0

/-- The value in a cell, if it was written. -/
def value? (h : Heap V) (b : BlockId) (i : Nat) : Option V := (h.block? b).bind (·.value? i)

/-- The heap after an access to a cell. -/
def touch (h : Heap V) (b : BlockId) (i : Nat) : Heap V :=
  match (h.block? b).bind (·.cells[i]?) with
  | some _ => h
  | none => { h with strays := .cell b i :: h.strays }

/-- The heap after an access to a block as one of `n` cells. -/
def expect (h : Heap V) (b : BlockId) (n : Nat) : Heap V :=
  if (h.block? b).map Block.size = some n then h
  else { h with strays := .whole b n :: h.strays }

/-- The heap with one more event. -/
def log (h : Heap V) (e : Event V) : Heap V := { h with trace := e :: h.trace }

/-- The heap with a block changed. -/
def mapBlock (h : Heap V) (b : BlockId) (f : Block V → Block V) : Heap V :=
  { h with blocks := h.blocks.modify b (Option.map f) }

/-- The heap with the count of a block changed. -/
def setCount (h : Heap V) (b : BlockId) (n : Nat) : Heap V := h.mapBlock b (·.withCount n)

/-- The heap with the content of a cell changed. -/
def setValue (h : Heap V) (b : BlockId) (i : Nat) (v : Option V) : Heap V :=
  h.mapBlock b (·.withValue i v)

/-- The number of values that share a payload. -/
def shares (h : Heap V) (p : PayloadId) : Nat := h.payloads[p]?.elim 0 Payload.shares

/-- The heap with the number of sharers of a payload changed. -/
def setShares (h : Heap V) (p : PayloadId) (n : Nat) : Heap V :=
  { h with payloads := h.payloads.modify p ({ · with shares := n }) }

@[simp] theorem block?_log (h : Heap V) (e : Event V) (b : BlockId) :
    (h.log e).block? b = h.block? b := rfl

@[simp] theorem block?_touch (h : Heap V) (b : BlockId) (i : Nat) (c : BlockId) :
    (h.touch b i).block? c = h.block? c := by
  unfold touch
  split <;> rfl

@[simp] theorem block?_expect (h : Heap V) (b : BlockId) (n : Nat) (c : BlockId) :
    (h.expect b n).block? c = h.block? c := by
  unfold expect
  split <;> rfl

/-- An access to a cell that is there changes nothing. -/
theorem touch_eq {h : Heap V} {b : BlockId} {block : Block V} (hb : h.block? b = some block)
    {i : Nat} (hi : i < block.size) : h.touch b i = h := by
  obtain ⟨c, hc⟩ : ∃ c, block.cells[i]? = some c := ⟨_, List.getElem?_eq_getElem hi⟩
  rw [touch, hb, Option.bind_some, hc]

/-- An access to a block with its true number of cells changes nothing. -/
theorem expect_eq {h : Heap V} {b : BlockId} {block : Block V} (hb : h.block? b = some block) :
    h.expect b block.size = h := by
  rw [expect, hb]
  exact if_pos rfl

@[simp] theorem block?_setShares (h : Heap V) (p : PayloadId) (n : Nat) (b : BlockId) :
    (h.setShares p n).block? b = h.block? b := rfl

theorem block?_mapBlock_self (h : Heap V) (b : BlockId) (f : Block V → Block V) :
    (h.mapBlock b f).block? b = (h.block? b).map f := by
  simp only [block?, mapBlock, List.getElem?_modify_eq]
  cases h.blocks[b]? with
  | none => rfl
  | some block => cases block <;> rfl

theorem block?_mapBlock_of_ne (h : Heap V) {b c : BlockId} (hc : c ≠ b)
    (f : Block V → Block V) : (h.mapBlock b f).block? c = h.block? c := by
  simp only [block?, mapBlock]
  rw [List.getElem?_modify_ne _ _ (Ne.symm hc)]

/-- The events since an earlier state of the same heap, in order. -/
def eventsSince (earlier h : Heap V) : List (Event V) :=
  (h.trace.take (h.trace.length - earlier.trace.length)).reverse

end Heap

/-- An operation on pointers and cells. -/
abbrev Action (V : Type) := Attempt Fault (Heap V)

end CountedCells

import CountedCells.Heap.Access
import CountedCells.Datum.Render

/-!
# Session: named owners next to a heap

Whatever is not stored in a cell or inside a payload is owned from outside the heap. A session
names these owners: **handles** are pointers, **variables** are values, and **raw blocks** are
references to a block taken and given back one by one.

A session can fail in more ways than its heap: a name may be unknown, a value may be used as a
key that can be none, and a request may make no sense. These are `Failure`s.
-/

namespace CountedCells

/-- References to a block, counted by hand. -/
structure RawBlock where
  /-- the block -/
  block : BlockId
  /-- its number of cells -/
  size : Nat
  /-- how many references are owned -/
  owned : Nat
  deriving DecidableEq, Inhabited, Repr

/-- The owners outside the heap, by name. -/
structure Registers (V : Type) where
  /-- the pointers -/
  handles : List (String × Pointer) := []
  /-- the values -/
  values : List (String × V) := []
  /-- the blocks counted by hand -/
  raws : List (String × RawBlock) := []
  deriving Inhabited

/-- A heap with its outside owners. -/
structure Session (V : Type) extends Registers V where
  /-- the heap -/
  heap : Heap V
  deriving Inhabited

/-- Why a command failed. -/
inductive Failure where
  /-- an operation on the heap ended early -/
  | fault (f : Fault)
  /-- a value that is no key was hashed -/
  | unhashable (d : Datum)
  /-- no handle has this name -/
  | noHandle (name : String)
  /-- no variable has this name -/
  | noVariable (name : String)
  /-- no raw block has this name -/
  | noRaw (name : String)
  /-- the raw block has no such cell -/
  | noCell
  /-- a null pointer has no block to count by hand -/
  | noBlock
  /-- a pointer was to be rebuilt in a way that has no meaning -/
  | undefined

/-- The message of a failure. -/
def Failure.message : Failure → String
  | fault f => f.message
  | unhashable d => "Attempted to hash non-hashable Value: " ++ d.render
  | noHandle name => "no handle " ++ name
  | noVariable name => "no var " ++ name
  | noRaw name => "no raw " ++ name
  | noCell => "raw slot out of range"
  | noBlock => "null handle has no block"
  | undefined => "undefined behaviour"

/-- The evaluation of an expression, on the heap. -/
abbrev Evaluation (V : Type) := Attempt Failure (Heap V)

/-- A command or a part of one, on the session. -/
abbrev Act (V : Type) := Attempt Failure (Session V)

/-- Ways to write down values. Evaluating one gives a value with its references taken; if that
fails, none is kept. -/
class Expression (E : Type) (V : outParam Type) [Host V] where
  /-- the value of an expression, where handles and variables have these contents -/
  eval : Registers V → E → Evaluation V V

/-- An operation on pointers and cells as part of a command. -/
def Evaluation.ofAction {V α : Type} (act : Action V α) : Evaluation V α := fun h =>
  ((act h).1.mapError .fault, (act h).2)

namespace Registers

variable {V : Type}

/-- The pointer of a name. -/
def handleNamed (r : Registers V) (name : String) : Except Failure Pointer :=
  match r.handles.lookup name with
  | some p => .ok p
  | none => .error (.noHandle name)

/-- The value of a name. -/
def variableNamed (r : Registers V) (name : String) : Except Failure V :=
  match r.values.lookup name with
  | some v => .ok v
  | none => .error (.noVariable name)

/-- The raw block of a name. -/
def rawNamed (r : Registers V) (name : String) : Except Failure RawBlock :=
  match r.raws.lookup name with
  | some u => .ok u
  | none => .error (.noRaw name)

end Registers
end CountedCells

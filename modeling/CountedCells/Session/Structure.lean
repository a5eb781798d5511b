import CountedCells.Session.Step
import CountedCells.Session.Term

/-!
# Structures of pointers: sessions with values

Cells that hold values can hold pointers, so values form lists, trees and cycles in the heap. The
commands here work on such structures: they compare a handle with a value, follow pointers from
cell to cell, and build chains of cells. Two questions show the sharing of payloads.
-/

namespace CountedCells

/-- A command on a session whose cells hold values. -/
inductive ValueCommand where
  /-- one of the commands for any host -/
  | common (c : Command Term)
  /-- whether a handle equals a value, which has to be a pointer -/
  | equals (h : String) (t : Term)
  /-- a handle for a copy of the pointer in a single cell -/
  | load (h source : String)
  /-- a handle for a chain of `n` cells, each pointing to the next, the last with a value -/
  | chain (h : String) (n : Nat) (t : Term)
  /-- follow pointers from a handle, at most `limit` of them -/
  | walk (h : String) (limit : Nat)
  /-- how many values share the payload of a variable -/
  | sharers (x : String)
  /-- whether two variables share one payload -/
  | samePayload (x y : String)

/-- What a command on values answers. -/
inductive ValueAnswer where
  /-- the answer of a command for any host -/
  | common (a : Answer Value)
  /-- yes or no -/
  | truth (b : Bool)
  /-- how many pointers were followed, and the value they led to -/
  | walked (hops : Nat) (last : Value)
  /-- a number, if there is one -/
  | count (n : Option Nat)
  /-- yes or no, if the question has an answer -/
  | verdict (b : Option Bool)

namespace Value

/-- The pointer that a value is; a value of another kind is an error. -/
def toPointer? (v : Value) : Except HeapError Pointer :=
  match v.datum with
  | .pointer p => .ok p
  | d => .error (.notPointer d.kind.name)

/-- Whether a pointer equals a value, which has to be a pointer. -/
def equalsPointer (p : Pointer) (v : Value) : Except HeapError Bool :=
  match v.toPointer? with
  | .ok q => .ok (p.same q)
  | .error e => .error e

/-- Follow pointers from a value, at most `limit` of them: how many were followed, and the value
that they led to. Each value is dropped when the next one has been read, and also if that read
ends early. -/
def follow : (limit : Nat) → (hops : Nat) → Value → Action Value (Nat × Value)
  | 0, hops, v => pure (hops, v)
  | limit + 1, hops, v =>
    match v.datum with
    | .pointer p => do
      let w ← (p.get : Action Value Value).orElseUndo (·.drop v)
      .update (·.drop v)
      follow limit (hops + 1) w
    | _ => pure (hops, v)

/-- Put `n` cells in front of a pointer, each holding the pointer to the one before. A new cell
takes over the reference to the cell it points to. -/
def chainOn : (n : Nat) → Pointer → Action Value Pointer
  | 0, p => pure p
  | n + 1, p => do
    let q ← (Pointer.allocate (.pointer p)).orElseUndo (·.dropPointer p)
    .update (·.dropPointer p)
    chainOn n q

/-- A chain of cells with a value in the last one; there is always a last one. -/
def chain (n : Nat) (v : Value) : Action Value Pointer := do
  chainOn (n - 1) (← Pointer.allocate v)

end Value

namespace Act

/-- Go on with the outcome of a check of a value. -/
def checked {α : Type} (outcome : Except HeapError α) : Act Value α :=
  match outcome with
  | .ok a => pure a
  | .error e => throw (.fault (.error e))

/-- Carry out a command on values. -/
def ofValueCommand : ValueCommand → Act Value ValueAnswer
  | .common c => do pure (.common (← ofCommand c))
  | .equals h t => do
    let p ← handle h
    withValue t fun v => do pure (.truth (← checked (v.equalsPointer p)))
  | .load h source => do
    let p ← handle source
    let v ← perform p.get
    let copied : Act Value Pointer := do perform (← checked v.toPointer?).copy
    let q ← copied.andFinally (·.mapHeap (·.drop v))
    pure (.common (← made h q))
  | .chain h n t => do
    let p ← withValue t fun v => perform (v.chain n)
    pure (.common (← made h p))
  | .walk h limit => do
    let p ← handle h
    let v ← perform p.get
    let (hops, last) ← perform (v.follow limit 0)
    updateHeap (·.drop last)
    pure (.walked hops last)
  | .sharers x => do
    let v ← variableValue x
    pure (.count (← .look fun s => v.sharers s.heap))
  | .samePayload x y => do
    let v ← variableValue x
    let w ← variableValue y
    pure (.verdict (v.samePayload w))

end Act

namespace Session

/-- Carry out a command on values. -/
def stepValue (c : ValueCommand) (s : Session Value) :
    Except Failure ValueAnswer × Session Value :=
  Act.ofValueCommand c s

/-- Carry out commands on values in order. -/
abbrev runValue (cs : List ValueCommand) (s : Session Value) : Session Value :=
  s.runBy stepValue cs

end Session
end CountedCells

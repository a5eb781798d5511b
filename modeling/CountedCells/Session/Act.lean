import CountedCells.Session.Basic

/-!
# Acts: the steps that commands are made of

Whatever a command takes for its own use it gives back: `withValue` evaluates an expression, runs
the command's body and drops the value, **whether the body fails or not**. Names are rebound so
that the new owner exists before the old one is dropped.
-/

namespace CountedCells

namespace Session

variable {V : Type}

/-- The session with its heap changed. -/
def mapHeap (s : Session V) (f : Heap V → Heap V) : Session V := { s with heap := f s.heap }

end Session

/-- Give back all references of a raw block, one by one. -/
def RawBlock.giveBack {V : Type} [Host V] (u : RawBlock) (h : Heap V) : Heap V :=
  u.owned.repeat (fun h => (h.release u.block u.size).2) h

namespace Act

variable {V α : Type}

/-- Run an evaluation on the heap of the session. -/
def run (act : Evaluation V α) : Act V α := fun s =>
  ((act s.heap).1, { s with heap := (act s.heap).2 })

/-- Run an operation on pointers and cells on the heap of the session. -/
def perform (act : Action V α) : Act V α := run (.ofAction act)

/-- Change the heap of the session. -/
def updateHeap (f : Heap V → Heap V) : Act V Unit := .update (·.mapHeap f)

/-- Change the owners outside the heap. -/
def updateRegisters (f : Registers V → Registers V) : Act V Unit :=
  .update fun s => { s with toRegisters := f s.toRegisters }

variable [Host V]

/-! ## Values for the time of a command -/

/-- The values of expressions; `got` holds the ones before, the latest first. -/
def evalAll {E : Type} [Expression E V] (r : Registers V) :
    (got : List V) → List E → Evaluation V (List V)
  | got, [] => pure got.reverse
  | got, e :: es => do
    let v ← (Expression.eval r e).orElseUndo (·.dropAll got.reverse)
    evalAll r (v :: got) es

/-- The value of an expression; the caller owns it. -/
def value {E : Type} [Expression E V] (e : E) : Act V V := do
  run (Expression.eval (← .look Session.toRegisters) e)

/-- The values of expressions; the caller owns them. -/
def values {E : Type} [Expression E V] (es : List E) : Act V (List V) := do
  run (evalAll (← .look Session.toRegisters) [] es)

/-- Run a step with the value of an expression, and drop the value. -/
def withValue {E : Type} [Expression E V] (e : E) (body : V → Act V α) : Act V α := do
  let v ← value e
  (body v).andFinally (·.mapHeap (·.drop v))

/-- Run a step with the values of expressions, and drop the values. -/
def withValues {E : Type} [Expression E V] (es : List E) (body : List V → Act V α) :
    Act V α := do
  let vs ← values es
  (body vs).andFinally (·.mapHeap (·.dropAll vs))

/-! ## Names -/

/-- Give a name to a pointer, and drop the one that had the name. -/
def nameHandle (name : String) (p : Pointer) : Act V Unit := do
  let old ← .look (·.handles.lookup name)
  updateRegisters fun r => { r with handles := Entries.put name p r.handles }
  match old with
  | none => pure ()
  | some q => updateHeap (·.dropPointer q)

/-- Give a name to a value, and drop the one that had the name. -/
def nameVariable (name : String) (v : V) : Act V Unit := do
  let old ← .look (·.values.lookup name)
  updateRegisters fun r => { r with values := Entries.put name v r.values }
  match old with
  | none => pure ()
  | some w => updateHeap (·.drop w)

/-- Give a name to a raw block, and give back what had the name. -/
def nameRaw (name : String) (u : RawBlock) : Act V Unit := do
  let old ← .look (·.raws.lookup name)
  updateRegisters fun r => { r with raws := Entries.put name u r.raws }
  match old with
  | none => pure ()
  | some w => updateHeap w.giveBack

/-- Name a value that was read, or drop it. -/
def keepOrDrop (keep : Option String) (v : V) : Act V Unit :=
  match keep with
  | some name => nameVariable name v
  | none => updateHeap (·.drop v)

end Act
end CountedCells

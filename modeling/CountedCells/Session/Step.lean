import CountedCells.Session.Act
import CountedCells.Session.Command

/-!
# Running commands

`Session.step` carries out one command; it looks up the names that the command mentions before it
evaluates anything. `Session.runBy` carries out a list of commands, going on after failures, and
`Session.close` drops all owners: first the variables, then the handles, then the raw blocks, each
in the order of their names.
-/

namespace CountedCells

namespace Act

variable {V : Type}

/-- The pointer of a handle. -/
def handle (name : String) : Act V Pointer := Attempt.find (·.handleNamed name)

/-- The value of a variable. -/
def variableValue (name : String) : Act V V := Attempt.find (·.variableNamed name)

/-- A raw block by name. -/
def rawBlock (name : String) : Act V RawBlock := Attempt.find (·.rawNamed name)

/-- A raw block that has a cell `i`. -/
def rawWithCell (name : String) (i : Nat) : Act V RawBlock := do
  let u ← rawBlock name
  if i < u.size then pure u else throw .noCell

/-- Take a variable out of the session; its value goes to the caller. -/
def takeVariable (name : String) : Act V V := do
  let v ← variableValue name
  updateRegisters fun r => { r with values := Entries.remove name r.values }
  pure v

/-- How many references there are to the block of a pointer. -/
def countOf (p : Pointer) : Act V Nat := Attempt.look fun s => p.refCount s.heap

/-- The address to rebuild a pointer from, if a pointer to `n` cells can be rebuilt from it. -/
def originAddress (origin : Origin) (n : Nat) : Act V Address := do
  let (address, size) ← match origin with
    | .handle name => do
      let p ← handle name
      pure (p.address, p.size)
    | .raw name => do
      let u ← rawBlock name
      pure (.block u.block, u.size)
    | .zero => pure (.zero, n)
    | .sentinel => pure (.sentinel, n)
  match address with
  | .block _ => if size = n then pure address else throw .undefined
  | _ => pure address

variable [Host V]

/-- Name a pointer that was made, and answer with it. -/
def made (name : String) (p : Pointer) : Act V (Answer V) := do
  nameHandle name p
  pure (.made p (← countOf p))

/-- Answer with a value that was read, and keep or drop it. -/
def answerValue (keep : Option String) (v : V) : Act V (Answer V) := do
  keepOrDrop keep v
  pure (.value v)

/-- Put copies of handles into a set one by one, where equal pointers are one member. For each
copy: whether it is new; then the members. A copy that is not new is dropped, and so are the
members `got` so far if a copy cannot be made. -/
def collect (got : List Pointer) : List String → Act V (List Bool × List Pointer)
  | [] => pure ([], got)
  | name :: names => do
    let copied : Act V Pointer := do perform (← handle name).copy
    let p ← copied.orElseUndo (·.mapHeap fun h => got.foldl Heap.dropPointer h)
    if got.any p.same then
      updateHeap (·.dropPointer p)
      let (fresh, members) ← collect got names
      pure (false :: fresh, members)
    else
      let (fresh, members) ← collect (got ++ [p]) names
      pure (true :: fresh, members)

/-! ## One command -/

/-- Store a value through a handle; the handle is rebound if the write made a cell. -/
def setThrough (name : String) (p : Pointer) (v : V) : Act V Unit := do
  let (q, outcome) ← run (.change (p.set v))
  updateRegisters fun r => { r with handles := Entries.put name q r.handles }
  match outcome with
  | .ok () => pure ()
  | .error f => throw (.fault f)

/-- Give back one reference of a raw block, which goes away with its last one. -/
def releaseRaw (name : String) (u : RawBlock) : Act V Release := do
  let outcome ← run (.change (·.release u.block u.size))
  if outcome ≠ .expired then
    updateRegisters fun r =>
      { r with raws :=
          if u.owned ≤ 1 then Entries.remove name r.raws
          else Entries.put name { u with owned := u.owned - 1 } r.raws }
  pure outcome

/-- Carry out a command. -/
def ofCommand {E : Type} [Expression E V] : Command E → Act V (Answer V)
  | .null h => made h .null
  | .allocate h e => do
    withValue e fun v => do made h (← perform (Pointer.allocate v))
  | .allocateCount h n => do
    made h (← perform (Pointer.allocateCollection (.count n)))
  | .allocateValues h es => do
    withValues es fun vs => do made h (← perform (Pointer.allocateCollection (.values vs)))
  | .bind h source => do
    let p ← handle source
    made h (← perform p.bind)
  | .copy h source => do
    let p ← handle source
    made h (← perform p.copy)
  | .rebuild h origin n => do
    let a ← originAddress origin n
    made h (← perform (Pointer.rebuild a n))
  | .drop h => do
    let p ← handle h
    updateRegisters fun r => { r with handles := Entries.remove h r.handles }
    updateHeap (·.dropPointer p)
    pure .done
  | .get h keep => do
    let p ← handle h
    answerValue keep (← perform p.get)
  | .set h e => do
    let p ← handle h
    withValue e fun v => setThrough h p v
    pure .done
  | .getAt h i keep => do
    let p ← handle h
    answerValue keep (← perform (p.getAt i))
  | .setAt h i e => do
    let p ← handle h
    withValue e fun v => perform (p.setAt i v)
    pure .done
  | .swap a b => do
    let p ← handle a
    let q ← handle b
    perform (p.swap q)
    pure .done
  | .toList h => do
    let p ← handle h
    let vs ← perform p.toList
    updateHeap (·.dropAll vs)
    pure (.values vs)
  | .inspect h => do
    let p ← handle h
    pure (.inspected p (← countOf p))
  | .compare a b => do
    let p ← handle a
    let q ← handle b
    pure (.compared p q)
  | .handleSet hs => do
    let (fresh, members) ← collect [] hs
    updateHeap fun h => members.foldl Heap.dropPointer h
    pure (.members fresh members.length)
  | .define x e => do
    nameVariable x (← value e)
    pure .done
  | .acquire x keep => do
    let v ← variableValue x
    perform (Heap.acquire .caller v)
    answerValue keep v
  | .disown x => do
    let v ← takeVariable x
    updateHeap (·.disown .caller v)
    pure .done
  | .forget x => do
    let v ← takeVariable x
    updateHeap (·.drop v)
    pure .done
  | .evaluate es => withValues es fun vs => pure (.values vs)
  | .rawAllocate u n => do
    let b ← perform (Heap.allocate n)
    nameRaw u ⟨b, n, 1⟩
    pure .done
  | .rawOf h u => do
    match ← handle h with
    | .null => throw .noBlock
    | .cells b n =>
      perform (Heap.retain b)
      nameRaw u ⟨b, n, 1⟩
      pure .done
  | .rawRetain u => do
    let w ← rawBlock u
    perform (Heap.retain w.block)
    updateRegisters fun r => { r with raws := Entries.put u { w with owned := w.owned + 1 } r.raws }
    pure .done
  | .rawRelease u => do
    let w ← rawBlock u
    pure (.released (← releaseRaw u w))
  | .rawStore u i e => do
    let w ← rawWithCell u i
    withValue e fun v => perform (Heap.store w.block i v)
    pure .done
  | .rawRead u i keep => do
    let w ← rawWithCell u i
    answerValue keep (← perform (Heap.read w.block i))
  | .rawSwap a i b j => do
    let v ← rawWithCell a i
    let w ← rawWithCell b j
    updateHeap (Heap.swap v.block i w.block j)
    pure .done
  | .rawCount u i => do
    let w ← rawWithCell u i
    pure (.cellCount (← .look (·.heap.countAt w.block i)))
  | .rawExpire u => do
    let w ← rawBlock u
    updateHeap (·.setCount w.block 0)
    pure .done
  | .rawRestore u n => do
    let w ← rawBlock u
    updateHeap (·.setCount w.block n.toNat)
    pure .done
  | .stats => do pure (.stats (← .look (·.heap.stats)))
  | .configure config => do
    updateHeap ({ · with config })
    pure .done
  | .config => do pure (.config (← .look (·.heap.config)))
  | .stability => do pure (.truth (← .look (·.heap.stable)))

end Act

/-! ## Whole sessions -/

namespace Session

variable {V : Type}

/-- A session without owners, on a heap where nothing has happened. -/
def empty (system : System) : Session V := { heap := .empty system }

/-- Carry out commands in order, one step for each, going on after failures. -/
def runBy {C A : Type} (step : C → Session V → Except Failure A × Session V) (cs : List C)
    (s : Session V) : Session V :=
  cs.foldl (fun s c => (step c s).2) s

theorem runBy_cons {C A : Type} (step : C → Session V → Except Failure A × Session V) (c : C)
    (cs : List C) (s : Session V) : s.runBy step (c :: cs) = (step c s).2.runBy step cs := rfl

/-- What each command of a run keeps is kept by the run. -/
theorem runBy_induction {C A : Type} {step : C → Session V → Except Failure A × Session V}
    {P : Session V → Prop} {cs : List C} (hstep : ∀ c ∈ cs, ∀ s, P s → P (step c s).2)
    {s : Session V} (hs : P s) : P (s.runBy step cs) := by
  induction cs generalizing s with
  | nil => exact hs
  | cons c cs ih =>
    have hnow := hstep c List.mem_cons_self s hs
    exact ih (fun c' hc' => hstep c' (List.mem_cons_of_mem c hc')) hnow

variable {E : Type} [Host V] [Expression E V]

/-- Carry out a command. -/
def step (c : Command E) (s : Session V) : Except Failure (Answer V) × Session V :=
  Act.ofCommand c s

/-- Carry out commands for any host in order. -/
abbrev run (cs : List (Command E)) (s : Session V) : Session V := s.runBy step cs

/-- Whether one name comes before another or is the same. -/
def nameLe (a b : String) : Bool := !decide (b < a)

/-- Drop all owners: the variables, the handles and the raw blocks, each by name. -/
def close (s : Session V) : Session V :=
  let h := (Entries.sorted nameLe s.values).foldl (fun h x => h.drop x.2) s.heap
  let h := (Entries.sorted nameLe s.handles).foldl (fun h x => h.dropPointer x.2) h
  let h := (Entries.sorted nameLe s.raws).foldl (fun h x => x.2.giveBack h) h
  { heap := h }

end Session
end CountedCells

import CountedCells.Heap.Cells

/-!
# Access: what can be done with a pointer

A pointer gives access to the cells behind it. Every operation first checks the pointer: a null
pointer has no cells (`nullDereference`), a single-cell operation needs a single cell
(`notScalar`), and an index has to be below the number of cells (`indexOutOfRange`).

A pointer owns one reference to its block. Operations that make a pointer give it out with its
reference; if one ends early, the reference of the pointer it was making is given back.

There is one operation that a null pointer answers with success: a write through it makes a fresh
cell first and **rebinds the pointer** to it (`upgrade`). Other null pointers stay null.
-/

namespace CountedCells

/-- How the cells of a fresh collection are filled. -/
inductive Filling (V : Type) where
  /-- `n` cells with the default value -/
  | count (n : Nat)
  /-- one cell for each value, in order -/
  | values (vs : List V)

namespace Filling

variable {V : Type}

/-- The number of cells. -/
def size : Filling V → Nat
  | count n => n
  | values vs => vs.length

/-- The values to be stored, in order. -/
def contents [Inhabited V] : Filling V → List V
  | count n => List.replicate n default
  | values vs => vs

@[simp] theorem length_contents [Inhabited V] (filling : Filling V) :
    filling.contents.length = filling.size := by
  cases filling with
  | count n => exact List.length_replicate
  | values vs => rfl

/-- Equality of fillings, given equality of values. A count is not a list of default values. -/
def sameBy (eq : V → V → Bool) : Filling V → Filling V → Bool
  | count m, count n => m == n
  | values vs, values ws => vs.length == ws.length && (vs.zip ws).all fun (v, w) => eq v w
  | _, _ => false

/-- The layout of a filling, given one for values. -/
def layout (ofValue : V → Text.Layout) : Filling V → Text.Layout
  | count n => .variant "Count" [.leaf (toString n)]
  | values vs => .variant "Values" [.items (vs.map ofValue)]

end Filling

namespace Pointer

variable {V : Type}

/-! ## Checks -/

/-- The block behind a pointer. -/
def block? : Pointer → Except HeapError BlockId
  | null => .error .nullDereference
  | cells b _ => .ok b

/-- The block behind a pointer to a single cell. -/
def scalar? (p : Pointer) : Except HeapError BlockId :=
  match p.block? with
  | .error e => .error e
  | .ok b => if p.isCollection then .error (.notScalar p.size) else .ok b

/-- The block behind a pointer that has a cell `i`. -/
def slot? (p : Pointer) (i : Nat) : Except HeapError BlockId :=
  match p.block? with
  | .error e => .error e
  | .ok b => if i < p.size then .ok b else .error (.indexOutOfRange i p.size)

/-- Go on with the outcome of a check. -/
def checked {α : Type} : Except HeapError α → Action V α
  | .error e => throw (.error e)
  | .ok a => pure a

/-- How many references to its block there are; none for a null pointer. -/
def refCount (p : Pointer) (h : Heap V) : Nat :=
  match p with
  | null => 0
  | cells b _ => h.count b

/-! ## Other pointers to the same block -/

/-- A second pointer to the same block. -/
def bind (p : Pointer) : Action V Pointer :=
  match p with
  | null => pure null
  | cells b n => do
    Heap.retain b
    pure (cells b n)

/-- A copy of the pointer. Where `bind` reports an expired block, a copy is abandoned. -/
def copy (p : Pointer) : Action V Pointer :=
  match p with
  | null => pure null
  | cells b n => do
    Heap.copyRef (.block b n)
    pure (cells b n)

/-- Rebuild a pointer to `n` cells from an address. Only an address that a pointer to a live
block of `n` cells has reported may be used; the sentinel and zero give a null pointer.
From then on the heap is not known to be sound. -/
def rebuild (a : Address) (n : Nat) : Action V Pointer := do
  .update fun h => if h.stable then ({ h with stable := false }).log .unstable else h
  match a with
  | .sentinel | .zero => pure null
  | .block b => do
    Heap.retainUnchecked b
    .update (·.log (.rebuilt b n))
    pure (cells b n)

variable [Host V]

/-! ## Reading and writing -/

/-- The value of a single cell. -/
def get (p : Pointer) : Action V V := do
  let b ← checked p.scalar?
  Heap.read b 0

/-- The value of the cell `i`. -/
def getAt (p : Pointer) (i : Nat) : Action V V := do
  let b ← checked (p.slot? i)
  Heap.read b i

/-- Store a value in the cell `i`. -/
def setAt (p : Pointer) (i : Nat) (v : V) : Action V Unit := do
  let b ← checked (p.slot? i)
  Heap.store b i v

/-- The pointer that a write goes through: a fresh cell in place of null. -/
def upgrade (p : Pointer) : Action V Pointer :=
  match p with
  | null => do
    let b ← Heap.allocate 1
    .update (·.log (.upgraded b))
    pure (cells b 1)
  | cells b n => pure (cells b n)

/-- Store a value in a single cell. The pointer is given back as the write left it: one that was
null and got a cell keeps the cell even if the write then ends early. -/
def set (p : Pointer) (v : V) (h : Heap V) : (Pointer × Except Fault Unit) × Heap V :=
  match p.upgrade h with
  | (.error f, h') => ((p, .error f), h')
  | (.ok q, h') =>
    let write : Action V Unit := do
      let b ← checked q.scalar?
      Heap.store b 0 v
    ((q, (write h').1), (write h').2)

/-- Exchange the values of two single cells. The first pointer is checked first. -/
def swap (p q : Pointer) : Action V Unit := do
  let b ← checked p.scalar?
  let c ← checked q.scalar?
  .update (Heap.swap b 0 c 0)

/-- Read `n` cells from the cell `i` on. If a read ends early, the values read before are dropped;
`got` holds them, the latest first. -/
def readOn (b : BlockId) : (n : Nat) → (i : Nat) → (got : List V) → Action V (List V)
  | 0, _, got => pure got.reverse
  | n + 1, i, got => do
    let v ← (Heap.read b i).orElseUndo (·.dropAll got.reverse)
    readOn b n (i + 1) (v :: got)

/-- The values of all cells, in order. -/
def toList (p : Pointer) : Action V (List V) := do
  let b ← checked p.block?
  readOn b p.size 0 []

/-! ## Making blocks -/

/-- Store values in the cells from `i` on. -/
def fill (p : Pointer) : (i : Nat) → List V → Action V Unit
  | _, [] => pure ()
  | i, v :: vs => do
    p.setAt i v
    fill p (i + 1) vs

/-- A pointer to a fresh single cell with a value. -/
def allocate (v : V) : Action V Pointer := do
  let b ← Heap.allocate 1
  (Heap.store b 0 v).orElseUndo (·.dropPointer (cells b 1))
  pure (cells b 1)

/-- A pointer to a fresh block of cells. -/
def allocateCollection (filling : Filling V) : Action V Pointer := do
  let b ← Heap.allocate filling.size
  let p := cells b filling.size
  (p.fill 0 filling.contents).orElseUndo (·.dropPointer p)
  pure p

end Pointer
end CountedCells

import CountedCells.Session.Structure

/-!
# Plain stores: cells without counts

What a session does can be told without counts, payloads and destruction. A **plain store** gives
every pointer that is made a fresh identity with a list of entries, and keeps it for good. Copies
of a pointer carry the same identity, writes replace an entry, an exchange exchanges two; reading
looks an entry up. Values are nothing but data here.

A `Plan` is an operation on a plain store: it succeeds with a result and the store afterwards, or
it fails and there is no other store than before. Nothing is ever short of room here. Plans exist
for all commands, and answer what does not depend on counts: a `Reply`.
-/

namespace CountedCells

/-- For each identity the data in its cells. -/
abbrev Cells := List (List Datum)

namespace Cells

/-- The entry of a cell. -/
def entry (cells : Cells) (b : BlockId) (i : Nat) : Datum := (cells[b]?.bind (·[i]?)).getD .unit

/-- The entries of all cells of an identity, in order. -/
def entries (cells : Cells) (b : BlockId) : List Datum := cells[b]?.getD []

/-- The cells with one entry replaced. -/
def put (cells : Cells) (b : BlockId) (i : Nat) (d : Datum) : Cells := cells.modify b (·.set i d)

/-- Follow pointers from a datum, at most `limit` of them. -/
def follow (cells : Cells) : (limit hops : Nat) → Datum → Except HeapError (Nat × Datum)
  | 0, hops, d => .ok (hops, d)
  | limit + 1, hops, d =>
    match d with
    | .pointer p => do
      let b ← p.scalar?
      cells.follow limit (hops + 1) (cells.entry b 0)
    | d => .ok (hops, d)

/-- The entries from a cell on begin with the one of the cell. -/
theorem drop_entries {cells : Cells} {b : BlockId} {i : Nat} (hi : i < (cells.entries b).length) :
    (cells.entries b).drop i = cells.entry b i :: (cells.entries b).drop (i + 1) := by
  unfold entries entry at *
  rcases hb : cells[b]? with - | ds
  · rw [hb] at hi
    cases hi
  · rw [hb] at hi
    have hget : ds[i]? = some ds[i] := List.getElem?_eq_getElem hi
    rw [Option.bind_some, hget]
    exact List.drop_eq_getElem_cons hi

end Cells

/-- The registers of a session, with data for values, and the entries of all cells. -/
structure Plain extends Registers Datum where
  /-- the entries -/
  cells : Cells := []

/-- An operation on a plain store. -/
abbrev Plan (α : Type) := StateT Plain (Except Failure) α

/-- Ways to write down data. -/
class Meaning (E : Type) where
  /-- what a cell reads as that was never written -/
  blank : Datum
  /-- what an expression means, where handles and variables have these contents -/
  meaning : Registers Datum → E → Except Failure Datum

export Meaning (meaning blank)

/-! ## The meaning of terms -/

namespace Term

mutual

/-- What a term means. -/
def meaning (r : Registers Datum) : Term → Except Failure Datum
  | unit => .ok .unit
  | bool b => .ok (.bool b)
  | char c => .ok (.char c)
  | int n => .ok (.int n)
  | float x => .ok (.float x)
  | text s => .ok (.text s)
  | bytes bs => .ok (.bytes bs)
  | list ts => do .ok (.list (← meaningItems r ts))
  | tuple ts => do .ok (.tuple (← meaningItems r ts))
  | record name fs => do .ok (.record name (← meaningFields r [] fs))
  | dict es => do .ok (.dict (← meaningEntries r [] es))
  | absent => .ok .absent
  | present t => do .ok (.present (← t.meaning r))
  | null => .ok (.pointer .null)
  | handle name => do .ok (.pointer (← r.handleNamed name))
  | var name => r.variableNamed name

/-- What the items of a list mean. -/
def meaningItems (r : Registers Datum) : List Term → Except Failure (List Datum)
  | [] => .ok []
  | t :: ts => do
    let d ← t.meaning r
    .ok (d :: (← meaningItems r ts))

/-- Fields with more fields added. -/
def meaningFields (r : Registers Datum) :
    List (String × Datum) → List (String × Term) → Except Failure (List (String × Datum))
  | got, [] => .ok got
  | got, (name, t) :: fs => do
    let d ← t.meaning r
    meaningFields r (Entries.put name d got) fs

/-- Entries of a dictionary with more entries inserted. -/
def meaningEntries (r : Registers Datum) :
    List (Key × Datum) → List (Term × Term) → Except Failure (List (Key × Datum))
  | got, [] => .ok got
  | got, (kt, t) :: es => do
    let kd ← kt.meaning r
    let d ← t.meaning r
    match kd.key? with
    | none => .error (.unhashable kd)
    | some k => meaningEntries r (Entries.put k d got) es

end

instance : Meaning Term where
  blank := .unit
  meaning := meaning

end Term

/-! ## Plans -/

/-- What an answer tells that does not depend on counts. -/
inductive Reply where
  /-- nothing but that it is done -/
  | done
  /-- a pointer -/
  | pointer (p : Pointer)
  /-- two pointers, to be compared -/
  | compared (p q : Pointer)
  /-- a datum -/
  | datum (d : Datum)
  /-- data -/
  | data (ds : List Datum)
  /-- for each member of a set whether it was new, and the number of different ones -/
  | members (fresh : List Bool) (size : Nat)
  /-- yes or no -/
  | truth (b : Bool)
  /-- how many pointers were followed, and what they led to -/
  | walked (hops : Nat) (last : Datum)
  /-- something that is up to the counts -/
  | other

namespace Plan

/-- Look something up. -/
def find {α : Type} (f : Plain → Except Failure α) : Plan α := fun p => (f p).map (·, p)

/-- Change the store. -/
def update (f : Plain → Plain) : Plan Unit := fun p => .ok ((), f p)

/-- Go on with the outcome of a check. -/
def checked {α : Type} (outcome : Except HeapError α) : Plan α :=
  find fun _ => outcome.mapError fun e => .fault (.error e)

/-! ### Registers -/

/-- The pointer of a handle. -/
def handle (name : String) : Plan Pointer := find (·.handleNamed name)

/-- The datum of a variable. -/
def variableDatum (name : String) : Plan Datum := find (·.variableNamed name)

/-- A raw block by name. -/
def rawBlock (name : String) : Plan RawBlock := find (·.rawNamed name)

/-- A raw block that has a cell `i`. -/
def rawWithCell (name : String) (i : Nat) : Plan RawBlock := do
  let u ← rawBlock name
  if i < u.size then pure u else throw .noCell

/-- What an expression means. -/
def value {E : Type} [Meaning E] (e : E) : Plan Datum := find fun p => meaning p.toRegisters e

/-- What expressions mean. -/
def values {E : Type} [Meaning E] (es : List E) : Plan (List Datum) :=
  find fun p => es.mapM (meaning p.toRegisters)

/-- Give a name to a pointer. -/
def nameHandle (name : String) (q : Pointer) : Plan Unit :=
  update fun p => { p with handles := Entries.put name q p.handles }

/-- Give a name to a datum. -/
def nameVariable (name : String) (d : Datum) : Plan Unit :=
  update fun p => { p with values := Entries.put name d p.values }

/-- Give a name to a raw block. -/
def nameRaw (name : String) (u : RawBlock) : Plan Unit :=
  update fun p => { p with raws := Entries.put name u p.raws }

/-- Name a datum that was read, if it is to be kept, and answer with it. -/
def answerValue (keep : Option String) (d : Datum) : Plan Reply := do
  match keep with
  | some name => nameVariable name d
  | none => pure ()
  pure (.datum d)

/-- Name a pointer that was made, and answer with it. -/
def made (name : String) (q : Pointer) : Plan Reply := do
  nameHandle name q
  pure (.pointer q)

/-- Take a variable out of the registers. -/
def takeVariable (name : String) : Plan Datum := do
  let d ← variableDatum name
  update fun p => { p with values := Entries.remove name p.values }
  pure d

/-! ### Cells -/

/-- A fresh identity with these entries, of which there is at least one. -/
def make (ds : List Datum) : Plan BlockId := fun p =>
  if ds = [] then .error (.fault (.error .emptyCollection))
  else .ok (p.cells.length, { p with cells := p.cells ++ [ds] })

/-- A pointer to a fresh identity. -/
def fresh (ds : List Datum) : Plan Pointer := do pure (.cells (← make ds) ds.length)

/-- The entry of a cell. -/
def read (b : BlockId) (i : Nat) : Plan Datum := find fun p => .ok (p.cells.entry b i)

/-- Replace the entry of a cell. -/
def store (b : BlockId) (i : Nat) (d : Datum) : Plan Unit :=
  update fun p => { p with cells := p.cells.put b i d }

/-- Exchange two entries. -/
def exchange (b : BlockId) (i : Nat) (c : BlockId) (j : Nat) : Plan Unit :=
  update fun p =>
    { p with cells := (p.cells.put b i (p.cells.entry c j)).put c j (p.cells.entry b i) }

/-- The datum of a single cell. -/
def get (q : Pointer) : Plan Datum := do read (← checked q.scalar?) 0

/-- The datum of the cell `i`. -/
def getAt (q : Pointer) (i : Nat) : Plan Datum := do read (← checked (q.slot? i)) i

/-- Store a datum in the cell `i`. -/
def setAt (q : Pointer) (i : Nat) (d : Datum) : Plan Unit := do
  store (← checked (q.slot? i)) i d

/-- Store a datum in a single cell; in place of a null pointer there is a fresh cell then. The
pointer is given back as the write left it. -/
def set (q : Pointer) (d : Datum) : Plan Pointer := do
  match q with
  | .null => fresh [d]
  | .cells _ _ =>
    store (← checked q.scalar?) 0 d
    pure q

/-- Exchange the data of two single cells. -/
def swap (q r : Pointer) : Plan Unit := do
  let b ← checked q.scalar?
  let c ← checked r.scalar?
  exchange b 0 c 0

/-- The data of all cells. -/
def toList (q : Pointer) : Plan (List Datum) := do
  let b ← checked q.block?
  find fun p => .ok (p.cells.entries b)

/-- Put `n` cells in front of a pointer, each holding the pointer to the one before. -/
def chainOn : (n : Nat) → Pointer → Plan Pointer
  | 0, q => pure q
  | n + 1, q => do chainOn n (← fresh [.pointer q])

/-! ### Commands -/

/-- Where a pointer is rebuilt from an address, and what it is. -/
def rebuilt (origin : Origin) (n : Nat) : Plan Pointer := do
  match origin with
  | .handle name =>
    match ← handle name with
    | .null => pure .null
    | .cells b m => if m = n then pure (.cells b n) else throw .undefined
  | .raw name => do
    let u ← rawBlock name
    if u.size = n then pure (.cells u.block n) else throw .undefined
  | .zero | .sentinel => pure .null

/-- Put handles into a set one by one, where equal pointers are one member. -/
def collect (got : List Pointer) : List String → Plan (List Bool × List Pointer)
  | [] => pure ([], got)
  | name :: names => do
    let q ← handle name
    if got.any q.same then
      let (fresh, members) ← collect got names
      pure (false :: fresh, members)
    else
      let (fresh, members) ← collect (got ++ [q]) names
      pure (true :: fresh, members)

/-- A raw block with one reference less. -/
def releaseRaw (name : String) (u : RawBlock) : Plan Unit :=
  update fun p =>
    { p with raws :=
        if u.owned ≤ 1 then Entries.remove name p.raws
        else Entries.put name { u with owned := u.owned - 1 } p.raws }

/-- The plan of a command for any host. -/
def ofCommand {E : Type} [Meaning E] : Command E → Plan Reply
  | .null h => made h .null
  | .allocate h e => do
    let d ← value e
    made h (← fresh [d])
  | .allocateCount h n => do made h (← fresh (List.replicate n (blank E)))
  | .allocateValues h es => do
    let ds ← values es
    made h (← fresh ds)
  | .bind h source | .copy h source => do made h (← handle source)
  | .rebuild h origin n => do made h (← rebuilt origin n)
  | .drop h => do
    let _ ← handle h
    update fun p => { p with handles := Entries.remove h p.handles }
    pure .done
  | .get h keep => do
    let q ← handle h
    answerValue keep (← get q)
  | .set h e => do
    let q ← handle h
    let d ← value e
    nameHandle h (← set q d)
    pure .done
  | .getAt h i keep => do
    let q ← handle h
    answerValue keep (← getAt q i)
  | .setAt h i e => do
    let q ← handle h
    let d ← value e
    setAt q i d
    pure .done
  | .swap a b => do
    let q ← handle a
    let r ← handle b
    swap q r
    pure .done
  | .toList h => do
    let q ← handle h
    pure (.data (← toList q))
  | .inspect h => do pure (.pointer (← handle h))
  | .compare a b => do
    let q ← handle a
    let r ← handle b
    pure (.compared q r)
  | .handleSet hs => do
    let (fresh, members) ← collect [] hs
    pure (.members fresh members.length)
  | .define x e => do
    nameVariable x (← value e)
    pure .done
  | .acquire x keep => do answerValue keep (← variableDatum x)
  | .disown x | .forget x => do
    let _ ← takeVariable x
    pure .done
  | .evaluate es => do pure (.data (← values es))
  | .rawAllocate u n => do
    let b ← make (List.replicate n (blank E))
    nameRaw u ⟨b, n, 1⟩
    pure .done
  | .rawOf h u => do
    match ← handle h with
    | .null => throw .noBlock
    | .cells b n =>
      nameRaw u ⟨b, n, 1⟩
      pure .done
  | .rawRetain u => do
    let w ← rawBlock u
    nameRaw u { w with owned := w.owned + 1 }
    pure .done
  | .rawRelease u => do
    let w ← rawBlock u
    releaseRaw u w
    pure .other
  | .rawStore u i e => do
    let w ← rawWithCell u i
    let d ← value e
    store w.block i d
    pure .done
  | .rawRead u i keep => do
    let w ← rawWithCell u i
    answerValue keep (← read w.block i)
  | .rawSwap a i b j => do
    let v ← rawWithCell a i
    let w ← rawWithCell b j
    exchange v.block i w.block j
    pure .done
  | .rawCount u i => do
    let _ ← rawWithCell u i
    pure .other
  | .rawExpire u | .rawRestore u _ => do
    let _ ← rawBlock u
    pure .done
  | .configure _ => pure .done
  | .stats | .config | .stability => pure .other

/-- The plan of a command on values. -/
def ofValueCommand : ValueCommand → Plan Reply
  | .common c => ofCommand c
  | .equals h t => do
    let q ← handle h
    let d ← value t
    match d with
    | .pointer r => pure (.truth (q.same r))
    | d => throw (.fault (.error (.notPointer d.kind.name)))
  | .load h source => do
    let q ← handle source
    match ← get q with
    | .pointer r => made h r
    | d => throw (.fault (.error (.notPointer d.kind.name)))
  | .chain h n t => do
    let d ← value t
    made h (← chainOn (n - 1) (← fresh [d]))
  | .walk h limit => do
    let q ← handle h
    let d ← get q
    let (hops, last) ← find fun p =>
      (p.cells.follow limit 0 d).mapError fun e => .fault (.error e)
    pure (.walked hops last)
  | .sharers x => do
    let _ ← variableDatum x
    pure .other
  | .samePayload x y => do
    let _ ← variableDatum x
    let _ ← variableDatum y
    pure .other

end Plan
end CountedCells

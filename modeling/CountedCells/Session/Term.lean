import CountedCells.Session.Basic
import CountedCells.Value
import CountedCells.Tracked

/-!
# Terms: writing down values

A `Term` describes a value: plain data, compound values of further terms, copies of handles and
variables. Evaluating it takes every reference that the value owns, from left to right. If that
fails in the middle, the parts that are already there are dropped.

A dictionary is built entry by entry. A key that is there already keeps its place and its first
form and takes the new value; the new form of the key and the old value are dropped.
-/

namespace CountedCells

/-- A description of a value. -/
inductive Term where
  /-- the value that carries no information -/
  | unit
  /-- a truth value -/
  | bool (b : Bool)
  /-- a character -/
  | char (c : Char)
  /-- an integer -/
  | int (n : Int64)
  /-- a double -/
  | float (x : Binary64)
  /-- a text -/
  | text (s : String)
  /-- a string of bytes -/
  | bytes (bs : List UInt8)
  /-- a list -/
  | list (items : List Term)
  /-- a tuple -/
  | tuple (items : List Term)
  /-- a record, built by adding the fields in order -/
  | record (name : String) (fields : List (String × Term))
  /-- a dictionary, built by inserting the entries in order -/
  | dict (entries : List (Term × Term))
  /-- an optional value that is missing -/
  | absent
  /-- an optional value that is there -/
  | present (t : Term)
  /-- the null pointer -/
  | null
  /-- a copy of a handle -/
  | handle (name : String)
  /-- a copy of a variable -/
  | var (name : String)
  deriving Inhabited

/-- The parts of a dictionary that is being built: for each key the value that it was and the
value under it. -/
abbrev DictParts := List (Key × Value × Value)

namespace DictParts

/-- The values in the order in which they are dropped. -/
def values (parts : DictParts) : List Value := parts.flatMap fun (_, kv, v) => [kv, v]

/-- The parts with one more entry, and the values that have no place in them. -/
def insert (k : Key) (kv v : Value) (parts : DictParts) : List Value × DictParts :=
  match List.lookup k parts with
  | none => ([], Entries.put k (kv, v) parts)
  | some (first, old) => ([kv, old], Entries.put k (first, v) parts)

end DictParts

namespace Term

open Attempt Evaluation

mutual

/-- The value of a term. -/
def eval (r : Registers Value) : Term → Evaluation Value Value
  | unit => pure (.inline .unit rfl)
  | bool b => pure (.inline (.bool b) rfl)
  | char c => pure (.inline (.char c) rfl)
  | int n => pure (.inline (.int n) rfl)
  | float x => pure (.inline (.float x) rfl)
  | text s => change (Value.text s)
  | bytes bs => change (Value.bytes bs)
  | list ts => do change (Value.list (← evalItems r [] ts))
  | tuple ts => do change (Value.tuple (← evalItems r [] ts))
  | record name fs => do change (Value.record (← evalFields r (.empty name) fs))
  | dict es => do change (Value.dict (← evalEntries r [] es))
  | absent => change Value.absent
  | present t => do change (Value.present (← t.eval r))
  | null => pure (.pointer .null)
  | handle name => do
    let p ← ofExcept (r.handleNamed name)
    let q ← ofAction p.copy
    pure (.pointer q)
  | var name => do
    let v ← ofExcept (r.variableNamed name)
    ofAction (Heap.copy v)
    pure v

/-- The values of terms; `got` holds the ones before, the latest first. -/
def evalItems (r : Registers Value) : (got : List Value) → List Term → Evaluation Value (List Value)
  | got, [] => pure got.reverse
  | got, t :: ts => do
    let v ← (t.eval r).orElseUndo (·.dropAll got.reverse)
    evalItems r (v :: got) ts

/-- A record with fields added; a value that a later field of the same name displaces is
dropped. -/
def evalFields (r : Registers Value) :
    Record Value → List (String × Term) → Evaluation Value (Record Value)
  | got, [] => pure got
  | got, (name, t) :: fs => do
    let v ← (t.eval r).orElseUndo (·.dropAll (got.fields.map Prod.snd))
    .update (·.dropAll (got.get? name).toList)
    evalFields r (got.withField name v) fs

/-- The parts of a dictionary with entries inserted. -/
def evalEntries (r : Registers Value) :
    DictParts → List (Term × Term) → Evaluation Value DictParts
  | got, [] => pure got
  | got, (kt, t) :: es => do
    let kv ← (kt.eval r).orElseUndo (·.dropAll got.values)
    let v ← (t.eval r).orElseUndo fun h => (h.drop kv).dropAll got.values
    match kv.datum.key? with
    | none => do
      .update fun h => ((h.drop v).drop kv).dropAll got.values
      throw (.unhashable kv.datum)
    | some k =>
      let (displaced, parts) := DictParts.insert k kv v got
      .update (·.dropAll displaced)
      evalEntries r parts es

end

instance : Expression Term Value := ⟨eval⟩

end Term

/-- A description of a watched number. -/
inductive Tracked.Term where
  /-- a number -/
  | literal (n : Int64)
  /-- a copy of a variable, which nobody watches -/
  | var (name : String)

/-- The value of a description. -/
def Tracked.Term.eval (r : Registers Tracked) : Tracked.Term → Evaluation Tracked Tracked
  | literal n => pure ⟨n⟩
  | var name => ofExcept (r.variableNamed name)

instance : Expression Tracked.Term Tracked := ⟨Tracked.Term.eval⟩

end CountedCells

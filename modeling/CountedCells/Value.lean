import CountedCells.Heap.Release
import CountedCells.Datum.Record

/-!
# Value: data with shared contents

A `Value` is a datum together with what it owns. A pointer owns a reference to its block; a text
or a compound value owns a share of a payload; the other values own nothing.

Copies of a value share its payload, and the payload owns what is inside once, however many copies
there are. So a list that holds a pointer and is stored in two cells counts that pointer once,
while a pointer stored in two cells counts twice.

Each constructor below makes a value of a fresh payload from its parts and takes over what the
parts own.
-/

namespace CountedCells

/-- A datum, and the payload that holds its content. -/
structure Value where
  /-- what the value expresses -/
  datum : Datum
  /-- the shared content -/
  payload : Option PayloadId
  /-- there is a payload exactly for the kinds with shared content -/
  isSome_payload : payload.isSome = datum.kind.isShared

namespace Value

/-- The reference that a value owns. -/
def ref (v : Value) : Option Ref :=
  match v.datum with
  | .pointer p => p.ref
  | _ => v.payload.map .payload

instance : Host Value where
  default := ⟨.unit, none, rfl⟩
  ref := ref
  ref_default := rfl

/-- A value that carries its content itself. -/
def inline (d : Datum) (h : d.kind.isShared = false) : Value := ⟨d, none, h.symm⟩

/-- A pointer as a value. It takes over the reference of the pointer. -/
def pointer (p : Pointer) : Value := inline (.pointer p) rfl

/-- A value with a fresh payload, which takes over what its parts own. -/
def share (d : Datum) (hd : d.kind.isShared = true) (parts : List Value) (h : Heap Value) :
    Value × Heap Value :=
  (⟨d, some h.payloads.length, hd.symm⟩, { h with payloads := h.payloads ++ [⟨1, parts⟩] })

/-- A text. -/
def text (s : String) : Heap Value → Value × Heap Value := share (.text s) rfl []

/-- A string of bytes. -/
def bytes (bs : List UInt8) : Heap Value → Value × Heap Value := share (.bytes bs) rfl []

/-- A list of values. -/
def list (vs : List Value) : Heap Value → Value × Heap Value :=
  share (.list (vs.map datum)) rfl vs

/-- A tuple of values. -/
def tuple (vs : List Value) : Heap Value → Value × Heap Value :=
  share (.tuple (vs.map datum)) rfl vs

/-- A record of values. -/
def record (r : Record Value) : Heap Value → Value × Heap Value :=
  share (.record r.name (Entries.mapValues datum r.fields)) rfl (r.fields.map Prod.snd)

/-- A dictionary. Each entry has its key, the value that the key was, and the value under it. -/
def dict (entries : List (Key × Value × Value)) : Heap Value → Value × Heap Value :=
  share (.dict (Entries.mapValues (fun (_, v) => v.datum) entries)) rfl
    (entries.flatMap fun (_, kv, v) => [kv, v])

/-- An optional value that is missing. -/
def absent : Heap Value → Value × Heap Value := share .absent rfl []

/-- An optional value that is there. -/
def present (v : Value) : Heap Value → Value × Heap Value := share (.present v.datum) rfl [v]

/-- How many values share the payload, if there is one. -/
def sharers (v : Value) (h : Heap Value) : Option Nat := v.payload.map h.shares

/-- Whether two values share one payload; no answer for values of different kinds or without a
payload. -/
def samePayload (v w : Value) : Option Bool :=
  if v.datum.kind = w.datum.kind then
    match v.payload, w.payload with
    | some p, some q => some (p == q)
    | _, _ => none
  else none

end Value
end CountedCells

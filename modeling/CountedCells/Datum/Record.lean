import CountedCells.Entries
import CountedCells.Datum.Equality
import CountedCells.Datum.Render

/-!
# Record: building a record field by field

A record is built from its type name by adding fields. A name that is added again keeps its place
and takes the new value. Fields are found by name or by place.

The fields hold anything: plain values in `Record Datum`, values with their shares in what a
session builds.
-/

namespace CountedCells

/-- A type name with fields in order of definition. -/
structure Record (α : Type) where
  /-- the name of the type -/
  name : String
  /-- the fields, each name once -/
  fields : List (String × α)
  deriving Inhabited

namespace Record

variable {α : Type}

/-- A record without fields. -/
def empty (name : String) : Record α := ⟨name, []⟩

/-- The record with one more field, or with the field changed if it has one of that name. -/
def withField (r : Record α) (name : String) (a : α) : Record α :=
  { r with fields := Entries.put name a r.fields }

/-- The record of a sequence of added fields. -/
def ofFields (name : String) (added : List (String × α)) : Record α :=
  added.foldl (fun r (field, a) => r.withField field a) (empty name)

/-- The number of fields. -/
def size (r : Record α) : Nat := r.fields.length

/-- The field of a name. -/
def get? (r : Record α) (name : String) : Option α := r.fields.lookup name

/-- The field at a place. -/
def at? (r : Record α) (i : Nat) : Option α := r.fields[i]?.map Prod.snd

/-- The record as a value. -/
def datum (r : Record Datum) : Datum := .record r.name r.fields

/-- Equality of records as values. -/
def same (r s : Record Datum) : Bool := r.datum.same s.datum

/-- The layout of a record with its parts named. -/
def layout (r : Record Datum) : Text.Layout :=
  .fields "StructValue"
    [("type_name", .leaf (Text.quote r.name)),
     ("fields", .entries (r.fields.map fun (name, d) => (Text.quote name, d.layout)))]

end Record

/-- A value as a record, if it is one. -/
def Datum.asRecord? : Datum → Option (Record Datum)
  | .record name fields => some ⟨name, fields⟩
  | _ => none

end CountedCells

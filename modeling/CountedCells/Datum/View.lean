import CountedCells.Datum.Basic

/-!
# Looking into a value

Each view answers with the content if the value has the asked form, and with nothing otherwise.
Two views accept more than one kind: an integer can be seen as a double, rounded to the nearest,
and both lists and tuples can be seen as their items.
-/

namespace CountedCells.Datum

/-- Whether it is the value that carries no information. -/
def isUnit : Datum → Bool
  | unit => true
  | _ => false

/-- Whether it is a pointer. -/
def isPointer : Datum → Bool
  | pointer _ => true
  | _ => false

/-- Whether it is an integer or a double. -/
def isNumeric : Datum → Bool
  | int _ | float _ => true
  | _ => false

/-- The truth value. -/
def asBool? : Datum → Option Bool
  | bool b => some b
  | _ => none

/-- The integer. -/
def asInt? : Datum → Option Int64
  | int n => some n
  | _ => none

/-- The number as a double. -/
def asFloat? : Datum → Option Binary64
  | int n => some (.ofInt n)
  | float x => some x
  | _ => none

/-- The text. -/
def asText? : Datum → Option String
  | text s => some s
  | _ => none

/-- The items of a list or tuple. -/
def asItems? : Datum → Option (List Datum)
  | list ds | tuple ds => some ds
  | _ => none

/-- The pointer. -/
def asPointer? : Datum → Option Pointer
  | pointer p => some p
  | _ => none

end CountedCells.Datum

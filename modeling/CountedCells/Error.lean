import CountedCells.Pointer
import CountedCells.Text.Layout

/-!
# What goes wrong with pointers and cells

A failing operation reports the cause as a `HeapError`. The wording is in one place,
`HeapError.message`; `HeapError.layout` shows the cause with its parts named.

There are two things an operation cannot report, because they happen where there is no way to fail.
Copying a pointer to a block whose count is zero is one; raising a count that is the highest of all
64-bit counts is the other. The operation is then **abandoned** at that point. A `Fault` is either
kind of end.
-/

namespace CountedCells

open CountedCells.Text (Layout quote)

/-- Why an operation on pointers or cells failed. -/
inductive HeapError where
  /-- there is no room for that many cells -/
  | allocation (requested : Nat)
  /-- access through a null pointer -/
  | nullDereference
  /-- access to a cell beyond the last -/
  | indexOutOfRange (index size : Nat)
  /-- another kind of value or pointer was needed -/
  | typeMismatch (expected got : String)
  /-- a block was referred to anew after its count had reached zero -/
  | expired (location : Location)
  /-- a collection without cells was asked for -/
  | emptyCollection
  deriving DecidableEq, Inhabited, Repr

namespace HeapError

/-- The name of the kind of error. -/
def name : HeapError → String
  | allocation _ => "Allocation"
  | nullDereference => "NullDereference"
  | indexOutOfRange _ _ => "IndexOutOfRange"
  | typeMismatch _ _ => "TypeMismatch"
  | expired _ => "UnitExpired"
  | emptyCollection => "EmptyCollection"

/-- The message of an error. -/
def message : HeapError → String
  | allocation n => "Allocation error: cannot allocate " ++ toString n ++ " unit(s)"
  | nullDereference => "Null dereference: pointer does not point to anything"
  | indexOutOfRange i n =>
    "Index out of range: index " ++ toString i ++ " is outside 0.." ++ toString n
  | typeMismatch expected got => "Type error: expected " ++ expected ++ ", got " ++ got
  | expired a => "Unit expired: " ++ a.render ++ " is not a live unit"
  | emptyCollection => "Empty collection: a collection needs at least one slot"

/-- The layout of an error: its name with its parts. -/
def layout (e : HeapError) : Layout :=
  match e with
  | allocation n => .fields e.name [("requested", .leaf (toString n))]
  | indexOutOfRange i n =>
    .fields e.name [("index", .leaf (toString i)), ("size", .leaf (toString n))]
  | typeMismatch expected got =>
    .fields e.name [("expected", .leaf (quote expected)), ("got", .leaf (quote got))]
  | expired (.number n) => .variant e.name [.leaf (toString n)]
  | expired a => .variant e.name [.leaf a.render]
  | nullDereference | emptyCollection => .leaf e.name

/-- A pointer to a single cell was needed, and this one has `n` cells behind it. -/
def notScalar (n : Nat) : HeapError :=
  typeMismatch "scalar pointer" ("collection of " ++ toString n)

/-- A pointer was needed, and this is a value of another kind. -/
def notPointer (kind : String) : HeapError := typeMismatch "pointer" kind

end HeapError

/-- How an operation ended early. -/
inductive Fault where
  /-- it reported an error -/
  | error (e : HeapError)
  /-- it was abandoned where it had to copy a pointer to a block whose count is zero -/
  | abandoned (block : BlockId)
  /-- it was abandoned where it had to raise the highest count that a block can have -/
  | overflow (block : BlockId)
  deriving DecidableEq, Inhabited, Repr

/-- The message of a fault. -/
def Fault.message : Fault → String
  | error e => e.message
  | abandoned b => "cannot alias pointer: " ++ (HeapError.expired (.block b)).message
  | overflow _ => "attempt to add with overflow"

end CountedCells

import CountedCells.Number.Binary64
import CountedCells.Pointer
import CountedCells.Entries

/-!
# Datum: what a value expresses

A `Datum` is the content of a value, without regard to who shares it: one of thirteen kinds. Seven
of them can be keys of a dictionary (`Key`), so a dictionary holds its keys as `Key`s and no
dictionary with another key exists.

A pointer inside a datum stands for itself. Nothing here looks through it.
-/

namespace CountedCells

/-- What can be a key of a dictionary. -/
inductive Key where
  /-- the value that carries no information -/
  | unit
  /-- a truth value -/
  | bool (b : Bool)
  /-- a character -/
  | char (c : Char)
  /-- a signed integer of 64 bits -/
  | int (n : Int64)
  /-- a text -/
  | text (s : String)
  /-- a string of bytes -/
  | bytes (bs : List UInt8)
  /-- a pointer, as an identity -/
  | pointer (p : Pointer)
  deriving Inhabited

/-- The content of a value. -/
inductive Datum where
  /-- the value that carries no information -/
  | unit
  /-- a truth value -/
  | bool (b : Bool)
  /-- a character -/
  | char (c : Char)
  /-- a signed integer of 64 bits -/
  | int (n : Int64)
  /-- a double -/
  | float (x : Binary64)
  /-- a text -/
  | text (s : String)
  /-- a string of bytes -/
  | bytes (bs : List UInt8)
  /-- a sequence of any length -/
  | list (items : List Datum)
  /-- a sequence of a length that belongs to its form -/
  | tuple (items : List Datum)
  /-- named fields under a type name, in order of definition -/
  | record (name : String) (fields : List (String × Datum))
  /-- values under keys -/
  | dict (entries : List (Key × Datum))
  /-- an optional value that is missing -/
  | absent
  /-- an optional value that is there -/
  | present (d : Datum)
  /-- a pointer -/
  | pointer (p : Pointer)
  deriving Inhabited

/-- The kinds of values; both forms of an optional value are one kind. -/
inductive Kind where
  | unit | bool | char | int | float | text | bytes | list | tuple | record | dict | option
  | pointer
  deriving DecidableEq, Inhabited, Repr

namespace Kind

/-- The name of a kind in messages. -/
def name : Kind → String
  | unit => "()"
  | bool => "bool"
  | char => "char"
  | int => "int"
  | float => "float"
  | text => "String"
  | bytes => "bytes"
  | list => "list"
  | tuple => "tuple"
  | record => "struct"
  | dict => "dict"
  | option => "Option"
  | pointer => "pointer"

/-- Whether the content of a value of this kind lies in a payload that copies of it share. The
others are carried by the value itself. -/
def isShared : Kind → Bool
  | text | bytes | list | tuple | record | dict | option => true
  | unit | bool | char | int | float | pointer => false

end Kind

namespace Datum

/-- The kind of a value. -/
def kind : Datum → Kind
  | unit => .unit
  | bool _ => .bool
  | char _ => .char
  | int _ => .int
  | float _ => .float
  | text _ => .text
  | bytes _ => .bytes
  | list _ => .list
  | tuple _ => .tuple
  | record _ _ => .record
  | dict _ => .dict
  | absent => .option
  | present _ => .option
  | pointer _ => .pointer

end Datum

/-- A key as a value. -/
def Key.datum : Key → Datum
  | unit => .unit
  | bool b => .bool b
  | char c => .char c
  | int n => .int n
  | text s => .text s
  | bytes bs => .bytes bs
  | pointer p => .pointer p

end CountedCells

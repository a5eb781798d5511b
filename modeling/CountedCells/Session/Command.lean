import CountedCells.Session.Basic

/-!
# Commands and answers

A session is driven by commands. They come in four groups: making and dropping handles, access
through handles, variables, and raw blocks; then there are questions about the heap as a whole.
Values are written as expressions of a type `E` that belongs to the host.
-/

namespace CountedCells

/-- Where the address comes from that a pointer is rebuilt from. -/
inductive Origin where
  /-- from a handle -/
  | handle (name : String)
  /-- from a raw block -/
  | raw (name : String)
  /-- the number zero -/
  | zero
  /-- the address of every null pointer -/
  | sentinel

/-- What can be done in a session. A command that makes a pointer names the handle `h` that takes
it; one that reads a value may name a variable that keeps it. -/
inductive Command (E : Type) where
  /-- a null pointer -/
  | null (h : String)
  /-- a pointer to a fresh cell with a value -/
  | allocate (h : String) (e : E)
  /-- a pointer to `n` fresh cells with the default value -/
  | allocateCount (h : String) (n : Nat)
  /-- a pointer to fresh cells with values -/
  | allocateValues (h : String) (es : List E)
  /-- a second pointer to the block of another handle -/
  | bind (h source : String)
  /-- a copy of the pointer of another handle -/
  | copy (h source : String)
  /-- a pointer rebuilt from an address, to `n` cells -/
  | rebuild (h : String) (origin : Origin) (n : Nat)
  /-- drop a handle -/
  | drop (h : String)
  /-- the value of a single cell -/
  | get (h : String) (keep : Option String)
  /-- store a value in a single cell, or through a null pointer in a fresh one -/
  | set (h : String) (e : E)
  /-- the value of the cell `i` -/
  | getAt (h : String) (i : Nat) (keep : Option String)
  /-- store a value in the cell `i` -/
  | setAt (h : String) (i : Nat) (e : E)
  /-- exchange the values of two single cells -/
  | swap (a b : String)
  /-- the values of all cells -/
  | toList (h : String)
  /-- what is known about a handle -/
  | inspect (h : String)
  /-- two handles, to be compared -/
  | compare (a b : String)
  /-- a set of copies of handles: which are new, and how many there are -/
  | handleSet (hs : List String)
  /-- a variable for a value -/
  | define (x : String) (e : E)
  /-- take one more reference to a variable's value -/
  | acquire (x : String) (keep : Option String)
  /-- remove a variable and give its value back -/
  | disown (x : String)
  /-- remove a variable and drop its value -/
  | forget (x : String)
  /-- the values of expressions -/
  | evaluate (es : List E)
  /-- a raw block of `n` fresh unset cells -/
  | rawAllocate (u : String) (n : Nat)
  /-- a raw block of the block of a handle -/
  | rawOf (h u : String)
  /-- take one more reference to a raw block -/
  | rawRetain (u : String)
  /-- give back one reference to a raw block -/
  | rawRelease (u : String)
  /-- store a value in a cell of a raw block -/
  | rawStore (u : String) (i : Nat) (e : E)
  /-- the value of a cell of a raw block -/
  | rawRead (u : String) (i : Nat) (keep : Option String)
  /-- exchange the contents of two cells of raw blocks -/
  | rawSwap (a : String) (i : Nat) (b : String) (j : Nat)
  /-- the count of a cell of a raw block -/
  | rawCount (u : String) (i : Nat)
  /-- damage a raw block: its count becomes zero -/
  | rawExpire (u : String)
  /-- set the count of a raw block -/
  | rawRestore (u : String) (n : UInt64)
  /-- how much is live -/
  | stats
  /-- install settings -/
  | configure (config : Config)
  /-- the settings in force -/
  | config
  /-- whether no pointer was ever rebuilt from an address -/
  | stability

/-- What a command answers. -/
inductive Answer (V : Type) where
  /-- nothing but that it is done -/
  | done
  /-- the pointer that was made, and the number of references to its block -/
  | made (p : Pointer) (count : Nat)
  /-- a value -/
  | value (v : V)
  /-- values -/
  | values (vs : List V)
  /-- a handle's pointer, and the number of references to its block -/
  | inspected (p : Pointer) (count : Nat)
  /-- the pointers of two handles -/
  | compared (p q : Pointer)
  /-- for each member whether it was new, and the number of different ones -/
  | members (fresh : List Bool) (size : Nat)
  /-- what giving back a reference did -/
  | released (r : Release)
  /-- the count of a cell -/
  | cellCount (count : Nat)
  /-- how much is live -/
  | stats (s : Stats)
  /-- settings -/
  | config (c : Config)
  /-- yes or no -/
  | truth (b : Bool)

end CountedCells

import CountedCells.Datum.Key

/-!
# KeySet: keys without repetition

A set of keys in order of first insertion. Inserting a key reports whether it was new; a key that
is equal to one in the set leaves the set alone, so the first of equal keys is the one that stays.
-/

namespace CountedCells

/-- A set of keys. -/
structure KeySet where
  /-- the keys, no two of them equal -/
  keys : List Key := []
  deriving Inhabited

namespace KeySet

/-- The set without keys. -/
def empty : KeySet := {}

/-- The number of keys. -/
def size (s : KeySet) : Nat := s.keys.length

/-- Whether a key is in the set. -/
def has (s : KeySet) (k : Key) : Bool := s.keys.any (· == k)

/-- The set with a key, and whether the key is new. -/
def insert (s : KeySet) (k : Key) : Bool × KeySet :=
  if s.has k then (false, s) else (true, ⟨s.keys ++ [k]⟩)

/-- The set with those values of a list that can be keys, and for each value whether it was new,
or no answer if it can be none. -/
def insertAll (s : KeySet) : List Datum → List (Option Bool) × KeySet
  | [] => ([], s)
  | d :: ds =>
    match d.key? with
    | none =>
      let (fresh, t) := s.insertAll ds
      (none :: fresh, t)
    | some k =>
      let (fresh, t) := (s.insert k).2.insertAll ds
      (some (s.insert k).1 :: fresh, t)

end KeySet
end CountedCells

import CountedCells.Datum.Basic

/-!
# Key: the values that dictionaries are indexed by

Two keys are one if they are equal as values: a pointer key is its identity, every other key its
content. A hash of a key is computed from `Key.feed`, a list of numbers that begins with the kind;
keys that are equal feed the same numbers (`Key.feed_eq_of_same`).

Doubles and compound values are no keys. Asking for their hash is a programming error, which
`Datum.feed?` reports by having no answer.
-/

namespace CountedCells

namespace Key

/-- Equality of keys. -/
def same : Key → Key → Bool
  | unit, unit => true
  | bool a, bool b => a == b
  | char a, char b => a == b
  | int a, int b => a == b
  | text a, text b => a == b
  | bytes a, bytes b => a == b
  | pointer p, pointer q => p.same q
  | _, _ => false

instance : BEq Key := ⟨same⟩

/-- The numbers a hash of the key is computed from. -/
def feed : Key → List Nat
  | unit => [0]
  | bool b => [1, b.toNat]
  | char c => [2, c.toNat]
  | int n => [3, n.toUInt64.toNat]
  | text s => 5 :: s.toUTF8.toList.map UInt8.toNat ++ [255]
  | bytes bs => 6 :: bs.length :: bs.map UInt8.toNat
  | pointer p => 12 :: p.feed

theorem feed_eq_of_same {k l : Key} (h : k.same l = true) : k.feed = l.feed := by
  cases k <;> cases l <;> simp_all [same, feed, Pointer.feed_eq_iff]

/-! ## The order in which keys are listed -/

/-- The place of a key among the kinds. -/
def rank : Key → Nat
  | unit => 0
  | bool _ => 1
  | char _ => 2
  | int _ => 3
  | text _ => 4
  | bytes _ => 5
  | pointer _ => 6

/-- Lexicographic order on lists of numbers. -/
def leNats : List Nat → List Nat → Bool
  | [], _ => true
  | _ :: _, [] => false
  | a :: as, b :: bs => a < b || (a == b && leNats as bs)

/-- The order of listing: by kind, then false before true, characters, integers and bytes by
number, texts by their bytes, and the null pointer before the blocks. -/
def le : Key → Key → Bool
  | int a, int b => a.toInt ≤ b.toInt
  | bool a, bool b => a.toNat ≤ b.toNat
  | char a, char b => a.toNat ≤ b.toNat
  | text a, text b =>
    leNats (a.toUTF8.toList.map UInt8.toNat) (b.toUTF8.toList.map UInt8.toNat)
  | bytes a, bytes b => leNats (a.map UInt8.toNat) (b.map UInt8.toNat)
  | pointer p, pointer q => leNats p.feed q.feed
  | k, l => k.rank ≤ l.rank

end Key

namespace Datum

/-- Whether a value can be a key. -/
def isHashable : Datum → Bool
  | unit | bool _ | char _ | int _ | text _ | bytes _ | pointer _ => true
  | float _ | list _ | tuple _ | record _ _ | dict _ | absent | present _ => false

/-- The numbers a hash of the value is computed from, if it has a hash. -/
def feed? : Datum → Option (List Nat)
  | unit => some Key.unit.feed
  | bool b => some (Key.bool b).feed
  | char c => some (Key.char c).feed
  | int n => some (Key.int n).feed
  | text s => some (Key.text s).feed
  | bytes bs => some (Key.bytes bs).feed
  | pointer p => some (Key.pointer p).feed
  | _ => none

/-- The value as a key, if it can be one. -/
def key? : Datum → Option Key
  | unit => some .unit
  | bool b => some (.bool b)
  | char c => some (.char c)
  | int n => some (.int n)
  | text s => some (.text s)
  | bytes bs => some (.bytes bs)
  | pointer p => some (.pointer p)
  | _ => none

@[simp] theorem key?_datum (k : Key) : k.datum.key? = some k := by
  cases k <;> rfl

theorem key?_eq_some_iff {d : Datum} {k : Key} : d.key? = some k ↔ d = k.datum := by
  constructor
  · intro h
    cases d <;> simp [key?] at h <;> subst h <;> rfl
  · rintro rfl
    exact key?_datum k

end Datum
end CountedCells

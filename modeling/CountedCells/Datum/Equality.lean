import CountedCells.Datum.Key

/-!
# Equality of values

Values are equal only within one kind. Doubles are compared as numbers, so a NaN is not equal to
itself and neither is anything that contains one; pointers are compared by identity and not looked
through. Sequences are compared item by item, records by their type name and as finite maps from
field names, dictionaries as finite maps from keys: as many entries, and every entry of the one is
found equal in the other, in whatever order.
-/

namespace CountedCells.Datum

mutual

/-- Equality of values. -/
def same : Datum → Datum → Bool
  | unit, unit => true
  | bool a, bool b => a == b
  | char a, char b => a == b
  | int a, int b => a == b
  | float x, float y => x.numEq y
  | text a, text b => a == b
  | bytes a, bytes b => a == b
  | list ds, list es => sameItems ds es
  | tuple ds, tuple es => sameItems ds es
  | record m fs, record n gs => m == n && fs.length == gs.length && sameFields fs gs
  | dict es, dict fs => es.length == fs.length && sameEntries es fs
  | absent, absent => true
  | present d, present e => d.same e
  | pointer p, pointer q => p.same q
  | _, _ => false

/-- Equality of sequences, item by item. -/
def sameItems : List Datum → List Datum → Bool
  | [], [] => true
  | d :: ds, e :: es => d.same e && sameItems ds es
  | _, _ => false

/-- Whether every field of the first record is found equal in the second. -/
def sameFields : List (String × Datum) → List (String × Datum) → Bool
  | [], _ => true
  | (name, d) :: fs, gs =>
    (match gs.lookup name with
     | some e => d.same e
     | none => false) && sameFields fs gs

/-- Whether every entry of the first dictionary is found equal in the second. -/
def sameEntries : List (Key × Datum) → List (Key × Datum) → Bool
  | [], _ => true
  | (k, d) :: es, fs =>
    (match fs.lookup k with
     | some e => d.same e
     | none => false) && sameEntries es fs

end

instance : BEq Datum := ⟨same⟩

end CountedCells.Datum

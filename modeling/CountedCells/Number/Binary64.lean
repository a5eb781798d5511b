/-!
# Binary64: doubles as 64-bit words

A double is kept as its word, so that everything said about it is arithmetic on natural numbers
and no opaque machine operation is involved. From the top the word holds one sign bit, an
exponent field of 11 bits and a fraction of 52 bits:

* an exponent field of all ones is an infinity (fraction zero) or a NaN;
* an exponent field of zero stands for `fraction · 2^(-1074)`;
* every other field `e` stands for `(2^52 + fraction) · 2^(e - 1075)`.

Two operations are needed here: **comparison for equality**, where a NaN equals nothing and the
two zeros are equal, and **rounding an integer** to the nearest double, a tie going to the even
neighbour.
-/

namespace CountedCells

/-- A double, as the word that encodes it. -/
structure Binary64 where
  /-- the encoding: sign, exponent field, fraction -/
  bits : UInt64
  deriving DecidableEq, Inhabited, Repr

namespace Binary64

/-! ## The parts of the word -/

/-- Whether the sign bit is set. -/
def isNegative (x : Binary64) : Bool := 1 <<< 63 ≤ x.bits.toNat

/-- The word without its sign bit; it grows with the magnitude. -/
def magnitude (x : Binary64) : Nat := x.bits.toNat % (1 <<< 63)

/-- The exponent field, below `2^11`. -/
def exponentField (x : Binary64) : Nat := x.magnitude >>> 52

/-- The fraction, below `2^52`. -/
def fraction (x : Binary64) : Nat := x.magnitude % (1 <<< 52)

/-- The magnitude word of the infinities: all exponent bits, no fraction. -/
def infinityMagnitude : Nat := 2047 <<< 52

/-- A NaN lies beyond the infinities. -/
def isNaN (x : Binary64) : Bool := infinityMagnitude < x.magnitude

/-- Either infinity. -/
def isInfinite (x : Binary64) : Bool := x.magnitude == infinityMagnitude

/-- Either zero. -/
def isZero (x : Binary64) : Bool := x.magnitude == 0

/-- The integer `m` of a finite magnitude `m · 2^q`. -/
def significand (x : Binary64) : Nat :=
  if x.exponentField = 0 then x.fraction else (1 <<< 52) + x.fraction

/-- The exponent `q` of a finite magnitude `m · 2^q`. -/
def exponent (x : Binary64) : Int :=
  if x.exponentField = 0 then -1074 else (x.exponentField : Int) - 1075

/-! ## Equality of the numbers -/

/-- Equality as numbers: a NaN equals nothing, itself included, and both zeros are one number. -/
def numEq (x y : Binary64) : Bool :=
  !x.isNaN && !y.isNaN && (x == y || (x.isZero && y.isZero))

/-! ## Rounding an integer -/

/-- `a / 2^s` rounded to the nearest integer, a tie to the even one. -/
def shiftRoundEven (a s : Nat) : Nat :=
  let unit := 1 <<< s
  let q := a / unit
  let r := a % unit
  if 2 * r > unit ∨ (2 * r = unit ∧ q % 2 = 1) then q + 1 else q

/-- The magnitude word of the double nearest to `n`. A significand that is rounded up to `2^53`
carries into the exponent field, which is the word of the next power of two. -/
def magnitudeOfNat (n : Nat) : Nat :=
  if n = 0 then 0
  else
    let top := n.log2
    let m := if top ≤ 52 then n <<< (52 - top) else shiftRoundEven n (top - 52)
    ((top + 1023) <<< 52) + (m - (1 <<< 52))

/-- The double nearest to a 64-bit integer. -/
def ofInt (n : Int64) : Binary64 :=
  let magnitude := magnitudeOfNat n.toInt.natAbs
  ⟨UInt64.ofNat (if n.toInt < 0 then (1 <<< 63) + magnitude else magnitude)⟩

end Binary64
end CountedCells

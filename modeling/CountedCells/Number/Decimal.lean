import CountedCells.Number.Binary64

/-!
# Decimal: the shortest decimal text of a double

Many decimals round to a given double; they fill an interval around it. The text of a double is
the decimal of that interval with **the fewest digits**, and among those the nearest to the
double, the larger magnitude on a tie.

Everything is exact: a finite magnitude `m · 2^q` and the ends of its interval are compared with
`c · 10^p` as natural numbers, after multiplying out the powers (`Scale`). For one digit, two
digits, and so on, only the two neighbours of the double on that decimal grid have to be tried,
since a grid with any point in the interval has a neighbour in it.

Which numbers are written with an exponent, and how, is a matter of `Style`.
-/

namespace CountedCells

/-- A positive decimal `d₁.d₂d₃… · 10^place`, without leading or trailing zeros. -/
structure Decimal where
  /-- the significant digits as a number -/
  digits : Nat
  /-- the place of the first digit: `0` for units, `1` for tens, `-1` for tenths -/
  place : Int
  deriving DecidableEq, Inhabited, Repr

namespace Decimal

/-! ## Comparing binary and decimal multiples -/

/-- Integers `binary` and `decimal` with `a · 2^q` and `c · 10^p` compared as `a * binary` and
`c * decimal`. -/
structure Scale where
  /-- the factor of multiples of `2^q` -/
  binary : Nat
  /-- the factor of multiples of `10^p` -/
  decimal : Nat

/-- The factors for the exponents `q` and `p`. -/
def scale (q p : Int) : Scale where
  binary := Nat.pow 10 (-p).toNat <<< q.toNat
  decimal := Nat.pow 10 p.toNat <<< (-q).toNat

/-- The decimals that round to a double: `low` to `high` in units of `2^unit`, around `value`. -/
structure Interval where
  /-- the lower end -/
  low : Nat
  /-- the double itself -/
  value : Nat
  /-- the upper end -/
  high : Nat
  /-- the common exponent of two -/
  unit : Int
  /-- whether the ends belong to it -/
  closed : Bool

/-- The interval of a finite double. Below a power of two the neighbour is half as far away, and
a tie between two doubles goes to the even significand. -/
def Interval.of (x : Binary64) : Interval where
  low := 4 * x.significand - (if x.fraction = 0 ∧ 1 < x.exponentField then 1 else 2)
  value := 4 * x.significand
  high := 4 * x.significand + 2
  unit := x.exponent - 2
  closed := x.significand % 2 == 0

/-- Whether `c · 10^p` lies in the interval. -/
def Interval.holds (i : Interval) (c : Nat) (p : Int) : Bool :=
  let s := scale i.unit p
  if i.closed then i.low * s.binary ≤ c * s.decimal && c * s.decimal ≤ i.high * s.binary
  else i.low * s.binary < c * s.decimal && c * s.decimal < i.high * s.binary

/-- The point of the grid `10^p` that lies in the interval and is nearest to its value. -/
def Interval.onGrid (i : Interval) (p : Int) : Option Nat :=
  let s := scale i.unit p
  let c := i.value * s.binary / s.decimal
  match i.holds c p, i.holds (c + 1) p with
  | true, true =>
    if i.value * s.binary - c * s.decimal < (c + 1) * s.decimal - i.value * s.binary then some c
    else some (c + 1)
  | true, false => some c
  | false, true => some (c + 1)
  | false, false => none

/-! ## The shortest decimal -/

/-- The number of decimal digits. -/
def width (n : Nat) : Nat := (Nat.toDigits 10 n).length

/-- The place of the first digit of `a · 2^q`, for a positive `a`. -/
def leadingPlace (a : Nat) (q : Int) : Int :=
  let s := scale q 0
  if s.decimal ≤ a * s.binary then (width (a * s.binary / s.decimal) : Int) - 1
  else
    let tenths := (List.range 400).find? fun k => s.decimal ≤ a * s.binary * Nat.pow 10 (k + 1)
    Int.negSucc (tenths.getD 0)

/-- `n` without its trailing zeros, of which it has at most `fuel`. -/
def stripZeros : (fuel : Nat) → Nat → Nat
  | 0, n => n
  | fuel + 1, n => if n % 10 = 0 then stripZeros fuel (n / 10) else n

/-- A decimal from a digit string that ends at place `p`. -/
def ofGrid (c : Nat) (p : Int) : Decimal where
  digits := stripZeros (width c) c
  place := p + (width c : Int) - 1

/-- The shortest decimal of a finite non-zero magnitude: the first grid, from coarse to fine, with
a point in the interval. Seventeen digits always suffice. -/
def shortest (x : Binary64) : Decimal :=
  let i := Interval.of x
  let first := leadingPlace i.value i.unit
  let found := (List.range 17).findSome? fun (n : Nat) =>
    let p := first - n
    (i.onGrid p).map fun c => ofGrid c p
  found.getD ⟨0, 0⟩

/-! ## Writing it down -/

/-- How numbers are written. -/
structure Style where
  /-- the lowest place of a first digit that is written without an exponent -/
  lowest : Int
  /-- the highest such place -/
  highest : Int
  /-- the mark before an exponent -/
  mark : String
  /-- the text of a NaN -/
  nan : String
  /-- the text of the positive infinity -/
  infinity : String

/-- Numbers from `0.0001` to below `10^16` are written in full, with at least one digit after the
point; the others have an exponent. -/
def plain : Style where
  lowest := -4
  highest := 15
  mark := "e"
  nan := "NaN"
  infinity := "inf"

/-- The decimal in full: at least one digit on both sides of the point. -/
def positional (d : Decimal) : String :=
  let ds := Nat.toDigits 10 d.digits
  if d.place < 0 then
    "0." ++ String.ofList (List.replicate (-d.place - 1).toNat '0' ++ ds)
  else
    let before := d.place.toNat + 1
    let whole := ds.take before ++ List.replicate (before - ds.length) '0'
    let rest := ds.drop before
    String.ofList whole ++ "." ++ (if rest.isEmpty then "0" else String.ofList rest)

/-- The decimal with one digit before the point and an exponent; no point without further
digits. -/
def scientific (mark : String) (d : Decimal) : String :=
  let ds := Nat.toDigits 10 d.digits
  let rest := ds.drop 1
  String.ofList (ds.take 1) ++ (if rest.isEmpty then "" else "." ++ String.ofList rest)
    ++ mark ++ toString d.place

/-- The text of a decimal in a style. -/
def write (style : Style) (d : Decimal) : String :=
  if style.lowest ≤ d.place ∧ d.place ≤ style.highest then d.positional
  else d.scientific style.mark

end Decimal

/-- The text of a double: the shortest decimal that rounds to it, with its sign. -/
def Binary64.render (x : Binary64) : String :=
  if x.isNaN then Decimal.plain.nan
  else
    (if x.isNegative then "-" else "") ++
      (if x.isInfinite then Decimal.plain.infinity
       else if x.isZero then "0.0"
       else (Decimal.shortest x).write Decimal.plain)

end CountedCells

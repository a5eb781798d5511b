import CountedCells.Number.Binary64
import Mathlib.Tactic

/-!
# Doubles: the numbers that words stand for

A word that is no NaN stands for a number (`Binary64.number?`): an infinity, or a rational that is
a signed integer times a power of two. Two words are equal by `Binary64.numEq` exactly if they
stand for one number (`Binary64.numEq_iff`).

Every finite magnitude is a multiple of the smallest one, `2^(-1074)`, and the multiple grows with
the magnitude word (`Binary64.multiple_strictMono`): within a power of two the significand grows by
one, and the next power of two lies beyond. So different magnitude words stand for different
numbers, and only the two zeros share theirs.
-/

namespace CountedCells.Binary64

/-- What a double can stand for. -/
inductive Number where
  /-- a rational -/
  | finite (q : ℚ)
  /-- an infinity -/
  | infinity (negative : Bool)
  deriving DecidableEq

/-- The magnitude of a finite double. -/
def absolute (x : Binary64) : ℚ := x.significand * (2 : ℚ) ^ x.exponent

/-- The rational of a finite double. -/
def signed (x : Binary64) : ℚ := if x.isNegative then -x.absolute else x.absolute

/-- The number that a double stands for; a NaN stands for none. -/
def number? (x : Binary64) : Option Number :=
  if x.isNaN then none
  else if x.isInfinite then some (.infinity x.isNegative)
  else some (.finite x.signed)

/-- The magnitude with this exponent field and fraction, in units of the smallest one. -/
def multiple (field fraction : Nat) : Nat :=
  (if field = 0 then fraction else 2 ^ 52 + fraction) * 2 ^ (field - 1)

/-- A full fraction is followed by the next power of two. -/
theorem multiple_lt_carry (field : Nat) {fraction : Nat} (h : fraction < 2 ^ 52) :
    multiple field fraction < multiple (field + 1) 0 := by
  rw [multiple, multiple, if_neg (Nat.succ_ne_zero field), Nat.add_sub_cancel, Nat.add_zero]
  rcases field with - | e
  · rw [if_pos rfl]
    exact Nat.mul_lt_mul_of_pos_right h (Nat.two_pow_pos _)
  · rw [if_neg (Nat.succ_ne_zero e), Nat.add_sub_cancel]
    calc (2 ^ 52 + fraction) * 2 ^ e
        < (2 ^ 52 * 2) * 2 ^ e := Nat.mul_lt_mul_of_pos_right (by omega) (Nat.two_pow_pos e)
      _ = 2 ^ 52 * 2 ^ (e + 1) := by rw [Nat.mul_assoc, ← Nat.pow_succ']

/-- Larger words stand for larger magnitudes. -/
theorem multiple_strictMono : StrictMono fun w => multiple (w / 2 ^ 52) (w % 2 ^ 52) := by
  refine strictMono_nat_of_lt_succ fun w => ?_
  by_cases hcarry : w % 2 ^ 52 + 1 = 2 ^ 52
  · have hdiv : (w + 1) / 2 ^ 52 = w / 2 ^ 52 + 1 := by omega
    have hmod : (w + 1) % 2 ^ 52 = 0 := by omega
    simp only [hdiv, hmod]
    exact multiple_lt_carry _ (Nat.mod_lt _ (Nat.two_pow_pos 52))
  · have hdiv : (w + 1) / 2 ^ 52 = w / 2 ^ 52 := by omega
    have hmod : (w + 1) % 2 ^ 52 = w % 2 ^ 52 + 1 := by omega
    simp only [hdiv, hmod, multiple]
    refine Nat.mul_lt_mul_of_pos_right ?_ (Nat.two_pow_pos _)
    split <;> omega

/-- The smallest magnitude that is not zero. -/
def smallest : ℚ := (2 : ℚ) ^ (-1074 : ℤ)

theorem smallest_ne_zero : smallest ≠ 0 := zpow_ne_zero _ two_ne_zero

theorem absolute_eq (x : Binary64) :
    x.absolute = multiple (x.magnitude / 2 ^ 52) (x.magnitude % 2 ^ 52) * smallest := by
  have hfield : x.exponentField = x.magnitude / 2 ^ 52 := Nat.shiftRight_eq_div_pow ..
  have hfraction : x.fraction = x.magnitude % 2 ^ 52 := rfl
  rw [absolute, multiple, significand, exponent, ← hfield, ← hfraction, smallest]
  rcases hzero : x.exponentField with - | e
  · simp only [if_true, Nat.zero_sub, pow_zero, mul_one]
  · rw [if_neg (Nat.succ_ne_zero e), if_neg (Nat.succ_ne_zero e), if_neg (Nat.succ_ne_zero e),
      Nat.add_sub_cancel]
    have hexponent : ((e + 1 : ℕ) : ℤ) - 1075 = (e : ℤ) + -1074 := by push_cast; ring
    rw [hexponent, zpow_add₀ two_ne_zero, zpow_natCast, Nat.cast_mul, Nat.cast_pow, mul_assoc]
    norm_cast

/-- Finite magnitudes are equal only for one magnitude word. -/
theorem absolute_inj {x y : Binary64} : x.absolute = y.absolute ↔ x.magnitude = y.magnitude := by
  rw [absolute_eq, absolute_eq, mul_left_inj' smallest_ne_zero, Nat.cast_inj]
  exact multiple_strictMono.injective.eq_iff

theorem absolute_nonneg (x : Binary64) : 0 ≤ x.absolute :=
  mul_nonneg (Nat.cast_nonneg _) (zpow_nonneg zero_le_two _)

theorem absolute_eq_zero_iff {x : Binary64} : x.absolute = 0 ↔ x.isZero = true := by
  have hzero : (⟨0⟩ : Binary64).absolute = 0 := by
    rw [absolute_eq]
    exact mul_eq_zero_of_left rfl _
  rw [← hzero, absolute_inj, isZero, beq_iff_eq]
  rfl

/-- A word is its sign and its magnitude word. -/
theorem eq_iff {x y : Binary64} :
    x = y ↔ x.isNegative = y.isNegative ∧ x.magnitude = y.magnitude := by
  refine ⟨fun h => h ▸ ⟨rfl, rfl⟩, fun ⟨hsign, hmagnitude⟩ => ?_⟩
  obtain ⟨a⟩ := x
  obtain ⟨b⟩ := y
  have ha := a.toNat_lt
  have hb := b.toNat_lt
  have hword : (1 <<< 63 : Nat) = 2 ^ 63 := rfl
  simp only [isNegative, magnitude, hword, decide_eq_decide] at hsign hmagnitude
  congr 1
  refine UInt64.toNat_inj.mp ?_
  omega

/-- Finite doubles stand for one rational only if they are one word or both zeros. -/
theorem signed_inj {x y : Binary64} :
    x.signed = y.signed ↔ x = y ∨ (x.isZero = true ∧ y.isZero = true) := by
  have hx := x.absolute_nonneg
  have hy := y.absolute_nonneg
  rw [eq_iff, ← absolute_inj, ← absolute_eq_zero_iff, ← absolute_eq_zero_iff, signed, signed]
  -- of different signs, magnitudes that give one rational are zero
  cases x.isNegative <;> cases y.isNegative <;>
    simp only [Bool.false_eq_true, if_false, if_true, neg_inj, true_and, false_and, false_or,
      reduceCtorEq] <;>
    constructor
  · exact .inl
  · rintro (h | ⟨h, h'⟩)
    · exact h
    · rw [h, h']
  · exact fun h => ⟨by linarith, by linarith⟩
  · exact fun ⟨h, h'⟩ => by rw [h, h', neg_zero]
  · exact fun h => ⟨by linarith, by linarith⟩
  · exact fun ⟨h, h'⟩ => by rw [h, h', neg_zero]
  · exact .inl
  · rintro (h | ⟨h, h'⟩)
    · exact h
    · rw [h, h']

theorem number?_eq_none_iff {x : Binary64} : x.number? = none ↔ x.isNaN = true := by
  rw [number?]
  cases x.isNaN <;> cases x.isInfinite <;> simp

/-- Doubles that are no NaN stand for one number only if they are one word or both zeros. -/
theorem number?_inj {x y : Binary64} (hx : x.isNaN = false) (hy : y.isNaN = false) :
    x.number? = y.number? ↔ x = y ∨ (x.isZero = true ∧ y.isZero = true) := by
  have hzero {z : Binary64} (hz : z.isInfinite = true) : z.isZero = false := by
    rw [isInfinite, beq_iff_eq] at hz
    rw [isZero, hz]
    rfl
  rw [number?, number?, hx, hy]
  cases hxi : x.isInfinite <;> cases hyi : y.isInfinite <;>
    simp only [Bool.false_eq_true, if_false, if_true, Option.some.injEq, reduceCtorEq,
      Number.finite.injEq, Number.infinity.injEq]
  · exact signed_inj
  · refine iff_of_false id ?_
    rintro (rfl | ⟨-, h⟩)
    · exact Bool.noConfusion (hxi.symm.trans hyi)
    · exact Bool.noConfusion ((hzero hyi).symm.trans h)
  · refine iff_of_false id ?_
    rintro (rfl | ⟨h, -⟩)
    · exact Bool.noConfusion (hyi.symm.trans hxi)
    · exact Bool.noConfusion ((hzero hxi).symm.trans h)
  · -- infinities have one magnitude word, so their sign tells them apart
    have hmagnitude : x.magnitude = y.magnitude := by
      rw [isInfinite, beq_iff_eq] at hxi hyi
      rw [hxi, hyi]
    rw [hzero hxi, eq_iff]
    simp only [hmagnitude, and_true, Bool.false_eq_true, false_and, or_false]

/-- Equality of doubles is equality of the numbers they stand for. -/
theorem numEq_iff {x y : Binary64} :
    x.numEq y = true ↔ ∃ n, x.number? = some n ∧ y.number? = some n := by
  have hnumEq : x.numEq y = true ↔ x.isNaN = false ∧ y.isNaN = false ∧
      (x = y ∨ (x.isZero = true ∧ y.isZero = true)) := by
    simp only [numEq, Bool.and_eq_true, Bool.not_eq_true', Bool.or_eq_true, beq_iff_eq, and_assoc]
  rw [hnumEq]
  constructor
  · rintro ⟨hx, hy, h⟩
    obtain ⟨n, hn⟩ := Option.ne_none_iff_exists'.mp
      (number?_eq_none_iff.not.mpr (Bool.eq_false_iff.mp hx))
    exact ⟨n, hn, (number?_inj hx hy).mpr h ▸ hn⟩
  · rintro ⟨n, hx, hy⟩
    have hxn : x.isNaN = false := Bool.eq_false_iff.mpr fun h => by
      rw [number?_eq_none_iff.mpr h] at hx
      cases hx
    have hyn : y.isNaN = false := Bool.eq_false_iff.mpr fun h => by
      rw [number?_eq_none_iff.mpr h] at hy
      cases hy
    exact ⟨hxn, hyn, (number?_inj hxn hyn).mp (hx.trans hy.symm)⟩

end CountedCells.Binary64

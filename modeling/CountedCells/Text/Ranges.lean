/-!
# Ranges: sets of characters as lists of ranges

A property of characters is kept as the list of the ranges of code points that have it, in
ascending order. Membership is a search through the list.
-/

namespace CountedCells.Text

/-- A set of characters: pairs of a first and a last code point. -/
abbrev Ranges := List (Nat × Nat)

/-- Whether a character lies in one of the ranges. -/
def Ranges.has (ranges : Ranges) (c : Char) : Bool :=
  ranges.any fun (first, last) => first ≤ c.toNat && c.toNat ≤ last

theorem Ranges.has_iff {ranges : Ranges} {c : Char} :
    ranges.has c = true ↔ ∃ r ∈ ranges, r.1 ≤ c.toNat ∧ c.toNat ≤ r.2 := by
  simp [Ranges.has]

end CountedCells.Text

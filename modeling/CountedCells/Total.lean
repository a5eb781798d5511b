/-!
# Totals over a list

`total f xs` adds up a measure over the elements of a list. Changing one element changes the total
by as much as it changes the measure of that element.
-/

namespace CountedCells

variable {α β : Type} (f : α → Nat)

/-- The measures of the elements, added up. -/
def total : List α → Nat
  | [] => 0
  | x :: xs => f x + total xs

@[simp] theorem total_nil : total f [] = 0 := rfl

@[simp] theorem total_cons (x : α) (xs : List α) : total f (x :: xs) = f x + total f xs := rfl

@[simp] theorem total_append (xs ys : List α) :
    total f (xs ++ ys) = total f xs + total f ys := by
  induction xs with
  | nil => simp
  | cons x xs ih => simp [ih, Nat.add_assoc]

theorem total_set (xs : List α) (i : Nat) (x y : α) (h : xs[i]? = some x) :
    total f (xs.set i y) + f x = total f xs + f y := by
  induction xs generalizing i with
  | nil => simp at h
  | cons z zs ih =>
    cases i with
    | zero =>
      obtain rfl : z = x := by simpa using h
      simp only [List.set_cons_zero, total_cons]
      omega
    | succ i =>
      have := ih i (by simpa using h)
      simp only [List.set_cons_succ, total_cons]
      omega

theorem total_modify (g : α → α) (xs : List α) (i : Nat) (h : ∀ x, f (g x) = f x) :
    total f (xs.modify i g) = total f xs := by
  induction xs generalizing i with
  | nil => simp
  | cons z zs ih =>
    cases i with
    | zero => simp [h]
    | succ i => simp [ih]

end CountedCells

/-!
# Entries: keyed lists in order of first insertion

The fields of a record, the entries of a dictionary and the registers of a session are lists of
pairs with at most one pair to a key. A new key goes to the end; a key that is there already
**keeps its place and its first form, and takes the new value**. Looking a key up is
`List.lookup`.
-/

namespace CountedCells.Entries

variable {κ α β : Type} [BEq κ]

/-- The entries with the value `a` under `k`. -/
def put (k : κ) (a : α) : List (κ × α) → List (κ × α)
  | [] => [(k, a)]
  | (k', a') :: rest => if k' == k then (k', a) :: rest else (k', a') :: put k a rest

/-- The entries without the one under `k`. -/
def remove (k : κ) : List (κ × α) → List (κ × α)
  | [] => []
  | (k', a') :: rest => if k' == k then rest else (k', a') :: remove k rest

/-- The same keys with their values changed. -/
def mapValues (f : α → β) (entries : List (κ × α)) : List (κ × β) :=
  entries.map fun (k, a) => (k, f a)

/-- The entries sorted by a `≤` on keys. -/
def sorted (le : κ → κ → Bool) (entries : List (κ × α)) : List (κ × α) :=
  entries.mergeSort fun x y => le x.1 y.1

/-! ## Looking up after a change -/

section Lookup

variable [LawfulBEq κ]

theorem lookup_put_self (k : κ) (a : α) (entries : List (κ × α)) :
    (put k a entries).lookup k = some a := by
  induction entries with
  | nil => simp [put]
  | cons e rest ih =>
    obtain ⟨k', a'⟩ := e
    by_cases h : k' = k
    · simp [put, h]
    · have h' : (k == k') = false := beq_false_of_ne (Ne.symm h)
      simp [put, h, List.lookup_cons, h', ih]

theorem lookup_put_of_ne {k l : κ} (h : l ≠ k) (a : α) (entries : List (κ × α)) :
    (put k a entries).lookup l = entries.lookup l := by
  induction entries with
  | nil => simp [put, List.lookup_cons, beq_false_of_ne h]
  | cons e rest ih =>
    obtain ⟨k', a'⟩ := e
    by_cases hk : k' = k
    · subst hk
      simp [put, List.lookup_cons, beq_false_of_ne h]
    · simp [put, hk, List.lookup_cons, ih]

/-- The keys stay as they are, but for a new key at the end. -/
theorem keys_put (k : κ) (a : α) (entries : List (κ × α)) :
    (put k a entries).map Prod.fst =
      if k ∈ entries.map Prod.fst then entries.map Prod.fst
      else entries.map Prod.fst ++ [k] := by
  induction entries with
  | nil => simp [put]
  | cons e rest ih =>
    obtain ⟨k', a'⟩ := e
    by_cases h : k' = k
    · simp [put, h]
    · have h' : k ≠ k' := Ne.symm h
      simp only [put, beq_false_of_ne h, Bool.false_eq_true, if_false, List.map_cons, ih,
        List.mem_cons, h', false_or]
      split <;> simp

end Lookup

end CountedCells.Entries

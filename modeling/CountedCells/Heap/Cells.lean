import CountedCells.Heap.Release

/-!
# Cells: allocation, copying, storing and reading

The operations on blocks and cells that pointers are made of.

* A block is allocated whole or not at all; a request for no cells is refused first, then one
  that exceeds the limit, then one that the system does not give.
* A count is a 64-bit number. There is one way to raise it, and one that is the highest already
  cannot be raised.
* To **copy** a value is to take one more reference of what it owns. Only a pointer to a block
  whose count is zero, or the highest, cannot be copied.
* To **store** a value in a cell is to copy it, to put the copy in place and only then to give
  back what the cell held. So nothing that both the old and the new value refer to is ever freed
  by a write.
* To **read** a cell is to copy what it holds; an unset cell reads as the default value.
-/

namespace CountedCells.Heap

variable {V : Type}

/-! ## Allocation and counts -/

/-- Why a request for `n` cells is refused, if it is. -/
def refusal (h : Heap V) (n : Nat) : Option HeapError :=
  if n = 0 then some .emptyCollection
  else if h.config.admits h.stats.liveCells n = false then some (.allocation n)
  else if h.system.refuses h.stats n then some (.allocation n)
  else none

/-- The heap with a fresh block of `n` cells. -/
def addBlock (h : Heap V) (n : Nat) : Heap V :=
  { h with
    blocks := h.blocks ++ [some (.fresh n)]
    stats := ⟨h.stats.liveCells + n, h.stats.liveBlocks + 1⟩
    trace := .allocated n h.blocks.length :: h.trace }

/-- Allocate a block of `n` unset cells with a count of one. -/
def allocate (n : Nat) : Action V BlockId := fun h =>
  match h.refusal n with
  | some e => (.error (.error e), h)
  | none => (.ok h.blocks.length, h.addBlock n)

/-- Raise the count of a block by one. A count is a 64-bit number; the highest one cannot be raised,
and then nothing is done. -/
def raise (b : BlockId) : Action V Unit := fun h =>
  match Config.checkedSum (h.count b) 1 with
  | some n => (.ok (), h.setCount b n)
  | none => (.error (.overflow b), h)

/-- Take one more reference to a block, or end with a fault if its count is zero. -/
def retainOr (f : Fault) (b : BlockId) : Action V Unit := fun h =>
  if h.count b = 0 then (.error f, h.touch b 0) else raise b h

/-- Take one more reference to a block, unless its count is zero. -/
def retain (b : BlockId) : Action V Unit := retainOr (.error (.expired (.block b))) b

/-- Take one more reference to a block, whatever its count. -/
def retainUnchecked (b : BlockId) : Action V Unit := do
  .update (·.touch b 0)
  raise b

/-- The count of the block is the highest that there is. -/
def Crowded (h : Heap V) (b : BlockId) : Prop := Config.countRange ≤ h.count b + 1

section

variable {h h' : Heap V} {b : BlockId} {f e : Fault}

theorem raise_of_lt (hroom : h.count b + 1 < Config.countRange) :
    raise b h = (.ok (), h.setCount b (h.count b + 1)) := by
  rw [raise, Config.checkedSum, if_pos hroom]

theorem raise_of_crowded (hb : h.Crowded b) : raise b h = (.error (.overflow b), h) := by
  rw [raise, Config.checkedSum, if_neg (Nat.not_lt_of_le hb)]

theorem retainOr_of_zero (hc : h.count b = 0) (f : Fault) :
    retainOr f b h = (.error f, h.touch b 0) := if_pos hc

theorem retainOr_of_pos (hc : 0 < h.count b) (f : Fault) : retainOr f b h = raise b h :=
  if_neg (Nat.ne_of_gt hc)

/-- A reference is taken where there is a count that can be raised. -/
theorem retainOr_of_lt (hc : 0 < h.count b) (hroom : h.count b + 1 < Config.countRange)
    (f : Fault) : retainOr f b h = (.ok (), h.setCount b (h.count b + 1)) :=
  (retainOr_of_pos hc f).trans (raise_of_lt hroom)

theorem retainOr_eq_ok {u : Unit} (hrun : retainOr f b h = (.ok u, h')) :
    0 < h.count b ∧ h.count b + 1 < Config.countRange ∧ h' = h.setCount b (h.count b + 1) := by
  rcases Nat.eq_zero_or_pos (h.count b) with hc | hc
  · rw [retainOr_of_zero hc] at hrun
    cases hrun
  · rw [retainOr_of_pos hc] at hrun
    rcases Nat.lt_or_ge (h.count b + 1) Config.countRange with hroom | hb
    · rw [raise_of_lt hroom] at hrun
      cases hrun
      exact ⟨hc, hroom, rfl⟩
    · rw [raise_of_crowded hb] at hrun
      cases hrun

/-- A reference is not taken because there is no count, or because the count cannot be raised. -/
theorem retainOr_eq_error (hrun : retainOr f b h = (.error e, h')) :
    h.count b = 0 ∧ e = f ∧ h' = h.touch b 0 ∨ h.Crowded b ∧ e = .overflow b ∧ h' = h := by
  rcases Nat.eq_zero_or_pos (h.count b) with hc | hc
  · rw [retainOr_of_zero hc] at hrun
    cases hrun
    exact .inl ⟨hc, rfl, rfl⟩
  · rw [retainOr_of_pos hc] at hrun
    rcases Nat.lt_or_ge (h.count b + 1) Config.countRange with hroom | hb
    · rw [raise_of_lt hroom] at hrun
      cases hrun
    · rw [raise_of_crowded hb] at hrun
      cases hrun
      exact .inr ⟨hb, rfl, rfl⟩

end

/-! ## Copying -/

/-- Take one more reference of a kind that a value owns. A payload has no more sharers than there
are values, so their number is not bounded here. -/
def copyRef : Ref → Action V Unit
  | .block b _ => retainOr (.abandoned b) b
  | .payload p => .update fun h => h.setShares p (h.shares p + 1)

variable [Host V]

/-- Copy a value: take one more reference of what it owns. -/
def copy (v : V) : Action V Unit :=
  match Host.ref v with
  | none => pure ()
  | some r => copyRef r

/-- Copy a value and report it. -/
def acquire (holder : Holder) (v : V) : Action V Unit := do
  copy v
  .update fun h => h.log (.acquired holder v h.stats)

/-- A copy ends early because the value points to a block without a count, or to a crowded one. -/
theorem copy_eq_error {v : V} {h h' : Heap V} {e : Fault} (hrun : copy v h = (.error e, h')) :
    ∃ b n, Host.ref v = some (.block b n) ∧
      (h.count b = 0 ∧ e = .abandoned b ∧ h' = h.touch b 0 ∨
        h.Crowded b ∧ e = .overflow b ∧ h' = h) := by
  rw [copy] at hrun
  rcases hr : Host.ref v with - | (⟨b, n⟩ | p) <;> simp only [hr] at hrun
  · cases hrun
  · exact ⟨b, n, rfl, retainOr_eq_error hrun⟩
  · cases hrun

/-- Reporting a copy does not end early. -/
theorem acquire_eq_error {holder : Holder} {v : V} {h h' : Heap V} {e : Fault}
    (hrun : acquire holder v h = (.error e, h')) : copy v h = (.error e, h') := by
  rcases hcopy : copy v h with ⟨f | u, h₁⟩
  · rw [acquire, Attempt.bind_of_error hcopy] at hrun
    exact hrun
  · rw [acquire, Attempt.bind_of_ok hcopy] at hrun
    cases hrun

/-! ## Storing, reading, exchanging -/

/-- Put a value whose reference is already taken into a cell, and give back what was there. -/
def replace (b : BlockId) (i : Nat) (v : V) (h : Heap V) : Heap V :=
  match h.value? b i with
  | none => (h.touch b i).setValue b i (some v)
  | some previous => (h.setValue b i (some v)).disown .cell previous

/-- Store a value in a cell. -/
def store (b : BlockId) (i : Nat) (v : V) : Action V Unit := do
  acquire .cell v
  .update (replace b i v)

/-- Read a cell. -/
def read (b : BlockId) (i : Nat) : Action V V := do
  .update (·.touch b i)
  match ← .look (·.value? b i) with
  | none => pure default
  | some v =>
    acquire .caller v
    pure v

omit [Host V] in
/-- Exchange the contents of two cells. No reference is taken or given back. -/
def swap (b : BlockId) (i : Nat) (c : BlockId) (j : Nat) (h : Heap V) : Heap V :=
  let x := h.value? b i
  let y := h.value? c j
  (((h.touch b i).touch c j).setValue b i y).setValue c j x

end CountedCells.Heap

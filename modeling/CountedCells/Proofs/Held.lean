import CountedCells.Heap.Access
import Mathlib.Algebra.Order.Group.Multiset
import Mathlib.Tactic.Abel

/-!
# What a heap holds

A heap holds values in the cells of its blocks and in the parts of its payloads: `Heap.held`. Who
holds a value in which place does not matter for counting, so this is a multiset, and what an
operation does to it is an equation without subtraction: writing a cell puts the new value in and
takes the previous one out, destroying a block takes out all that was stored in it, and counting
changes nothing.

The first half says for each operation which blocks there are afterwards.
-/

namespace CountedCells

variable {V : Type}

/-! ## Blocks after an operation -/

namespace Block

/-- What each cell holds, in order. -/
def contents (b : Block V) : List (Option V) := b.cells.map Cell.value

/-- The values that are stored, in order. -/
def stored (b : Block V) : List V := b.contents.flatMap Option.toList

@[simp] theorem length_contents (b : Block V) : b.contents.length = b.size := by
  simp [contents]

@[simp] theorem contents_withCount (b : Block V) (n : Nat) :
    (b.withCount n).contents = b.contents := rfl

@[simp] theorem count_withCount (b : Block V) (n : Nat) : (b.withCount n).count = n := rfl

@[simp] theorem rest_withCount (b : Block V) (n : Nat) : (b.withCount n).rest = b.rest := rfl

@[simp] theorem count_withValue (b : Block V) (i : Nat) (o : Option V) :
    (b.withValue i o).count = b.count := by
  cases i <;> rfl

theorem contents_withValue (b : Block V) (i : Nat) (o : Option V) :
    (b.withValue i o).contents = b.contents.set i o := by
  cases i with
  | zero => rfl
  | succ i =>
    apply List.ext_getElem?
    intro j
    cases j with
    | zero => rfl
    | succ j =>
      simp only [contents, withValue, cells, List.map_cons, List.getElem?_cons_succ,
        List.set_cons_succ, List.getElem?_map, List.getElem?_modify]
      by_cases hj : i = j
      · subst hj
        rw [List.getElem?_set_self', List.getElem?_map]
        cases b.rest[i]? <;> simp
      · rw [List.getElem?_set_ne hj, List.getElem?_map]
        cases b.rest[j]? <;> simp [hj]

/-- Writing a cell changes no count. -/
theorem counts_rest_withValue {b : Block V} (hb : ∀ c ∈ b.rest, c.count = 1) (i : Nat)
    (o : Option V) : ∀ c ∈ (b.withValue i o).rest, c.count = 1 := by
  cases i with
  | zero => exact hb
  | succ i =>
    intro c hc
    obtain ⟨j, hj⟩ := List.mem_iff_getElem?.mp hc
    rw [withValue, List.getElem?_modify, Option.map_eq_map] at hj
    obtain ⟨before, hbefore, rfl⟩ := Option.map_eq_some_iff.mp hj
    have hone := hb before (List.mem_of_getElem? hbefore)
    split <;> exact hone

theorem value?_eq (b : Block V) (i : Nat) : b.value? i = b.contents[i]?.join := by
  rw [value?, contents, List.getElem?_map]
  cases b.cells[i]? <;> rfl

theorem contents_fresh {n : Nat} (hn : 0 < n) :
    (fresh n : Block V).contents = List.replicate n none := by
  obtain ⟨m, rfl⟩ : ∃ m, n = m + 1 := ⟨n - 1, by omega⟩
  simp [contents, cells, fresh, Cell.unset, List.replicate_succ]

theorem size_fresh {n : Nat} (hn : 0 < n) : (fresh n : Block V).size = n := by
  simp only [fresh, size, List.length_replicate]
  omega

@[simp] theorem stored_fresh (n : Nat) : (fresh n : Block V).stored = [] := by
  simp [stored, contents, cells, fresh, Cell.unset]

/-- What a cell holds is stored. -/
theorem mem_stored_of_value? {b : Block V} {i : Nat} {v : V} (hv : b.value? i = some v) :
    v ∈ b.stored := by
  rw [value?_eq] at hv
  have hmem := List.mem_of_getElem? (Option.join_eq_some_iff.mp hv)
  exact List.mem_flatMap.mpr ⟨some v, hmem, List.mem_singleton_self v⟩

/-- A destroyed block gives back what is stored in it. -/
theorem values_size (b : Block V) : b.values b.size = b.stored := by
  have hv : ∀ cs : List (Cell V),
      cs.filterMap Cell.value = (cs.map Cell.value).flatMap Option.toList := by
    intro cs
    induction cs with
    | nil => rfl
    | cons c cs ih => rcases hc : c.value <;> simp [hc, ih]
  rw [values, ← length_cells, List.take_length]
  exact hv b.cells

/-- The values of some of the cells are stored. -/
theorem mem_stored_of_mem_values {b : Block V} {n : Nat} {v : V} (hv : v ∈ b.values n) :
    v ∈ b.stored := by
  obtain ⟨c, hc, hcv⟩ := List.mem_filterMap.mp hv
  refine List.mem_flatMap.mpr ⟨c.value, List.mem_map_of_mem (List.mem_of_mem_take hc), ?_⟩
  rw [hcv]
  exact List.mem_singleton_self v

end Block

namespace Heap

/-- The number of cells of a block; zero for a destroyed one. -/
def sizeAt (h : Heap V) (b : BlockId) : Nat := ((h.block? b).map Block.size).getD 0

theorem block?_eq_some_iff {h : Heap V} {b : BlockId} {block : Block V} :
    h.block? b = some block ↔ h.blocks[b]? = some (some block) := by
  rw [block?]
  cases h.blocks[b]? <;> simp

theorem lt_of_block? {h : Heap V} {b : BlockId} {block : Block V} (hb : h.block? b = some block) :
    b < h.blocks.length :=
  (List.getElem?_eq_some_iff.mp (block?_eq_some_iff.mp hb)).1

theorem block?_setCount (h : Heap V) (b : BlockId) (n : Nat) (c : BlockId) :
    (h.setCount b n).block? c =
      if c = b then (h.block? c).map (·.withCount n) else h.block? c := by
  split
  · rename_i hc
    rw [hc]
    exact block?_mapBlock_self h b _
  · rename_i hc
    exact block?_mapBlock_of_ne h hc _

theorem block?_setValue (h : Heap V) (b : BlockId) (i : Nat) (o : Option V) (c : BlockId) :
    (h.setValue b i o).block? c =
      if c = b then (h.block? c).map (·.withValue i o) else h.block? c := by
  split
  · rename_i hc
    rw [hc]
    exact block?_mapBlock_self h b _
  · rename_i hc
    exact block?_mapBlock_of_ne h hc _

/-- A place that is added at the end. -/
theorem block?_append (h : Heap V) (o : Option (Block V)) (c : BlockId) :
    (h.blocks ++ [o])[c]?.join = if c = h.blocks.length then o else h.block? c := by
  rw [block?]
  rcases Nat.lt_trichotomy c h.blocks.length with hc | hc | hc
  · rw [List.getElem?_append_left hc, if_neg (Nat.ne_of_lt hc)]
  · rw [hc, List.getElem?_concat_length, if_pos rfl]
    rfl
  · have hlen : (h.blocks ++ [o]).length ≤ c := by
      rw [List.length_append]
      exact hc
    rw [List.getElem?_eq_none hlen, List.getElem?_eq_none (Nat.le_of_lt hc),
      if_neg (Nat.ne_of_gt hc)]

theorem block?_addBlock (h : Heap V) (n : Nat) (c : BlockId) :
    (h.addBlock n).block? c = if c = h.blocks.length then some (.fresh n) else h.block? c :=
  h.block?_append (some (.fresh n)) c

theorem block?_length (h : Heap V) : h.block? h.blocks.length = none := by
  rw [block?, List.getElem?_eq_none (Nat.le_refl _)]
  rfl

theorem block?_destroy (h : Heap V) (b : BlockId) (n : Nat) (c : BlockId) :
    (h.destroy b n).block? c = if c = b then none else h.block? c := by
  simp only [block?, destroy]
  rw [List.getElem?_set]
  by_cases hc : c = b
  · rw [if_pos hc.symm, if_pos hc]
    split <;> rfl
  · rw [if_neg (Ne.symm hc), if_neg hc]

theorem value?_eq {h : Heap V} {b : BlockId} {block : Block V} (hb : h.block? b = some block)
    (i : Nat) : h.value? b i = block.contents[i]?.join := by
  rw [value?, hb, Option.bind_some, Block.value?_eq]

theorem count_eq {h : Heap V} {b : BlockId} {block : Block V} (hb : h.block? b = some block) :
    h.count b = block.count := by
  rw [count, hb]
  rfl

/-! ## The values that are held -/

/-- The values in cells and in the parts of payloads. -/
def held (h : Heap V) : Multiset V :=
  ((h.blocks.flatMap fun b => b.elim [] Block.stored : List V) : Multiset V) +
    (h.payloads.flatMap Payload.parts : List V)

theorem mem_held {h : Heap V} {v : V} :
    v ∈ h.held ↔ (∃ b block, h.block? b = some block ∧ v ∈ block.stored) ∨
      ∃ (p : PayloadId) (payload : Payload V),
        h.payloads[p]? = some payload ∧ v ∈ payload.parts := by
  simp only [held, Multiset.mem_add, Multiset.mem_coe, List.mem_flatMap]
  apply or_congr <;> constructor
  · rintro ⟨o, ho, hv⟩
    rcases o with - | block
    · exact absurd hv List.not_mem_nil
    · obtain ⟨b, hb⟩ := List.mem_iff_getElem?.mp ho
      exact ⟨b, block, block?_eq_some_iff.mpr hb, hv⟩
  · rintro ⟨b, block, hb, hv⟩
    exact ⟨some block, List.mem_of_getElem? (block?_eq_some_iff.mp hb), hv⟩
  · rintro ⟨payload, hp, hv⟩
    obtain ⟨p, hp⟩ := List.mem_iff_getElem?.mp hp
    exact ⟨p, payload, hp, hv⟩
  · rintro ⟨p, payload, hp, hv⟩
    exact ⟨payload, List.mem_of_getElem? hp, hv⟩

end Heap

section Lists

variable {α β : Type}

/-- Replacing one element of a list replaces what it contributes to a concatenation. -/
theorem coe_flatMap_set (f : α → List β) (y : α) {xs : List α} {i : Nat} {x : α}
    (hx : xs[i]? = some x) :
    ((xs.set i y).flatMap f : Multiset β) + f x = (xs.flatMap f : Multiset β) + f y := by
  induction xs generalizing i with
  | nil => simp at hx
  | cons z zs ih =>
    cases i with
    | zero =>
      obtain rfl : z = x := by simpa using hx
      simp only [List.set_cons_zero, List.flatMap_cons, ← Multiset.coe_add]
      abel
    | succ i =>
      have := ih (by simpa using hx)
      simp only [List.set_cons_succ, List.flatMap_cons, ← Multiset.coe_add, add_assoc, this]

theorem flatMap_modify (f : α → List β) {g : α → α} (hg : ∀ x, f (g x) = f x) (xs : List α)
    (i : Nat) : (xs.modify i g).flatMap f = xs.flatMap f := by
  induction xs generalizing i with
  | nil => cases i <;> rfl
  | cons z zs ih =>
    cases i with
    | zero => simp [hg]
    | succ i => simp [ih]

/-- Modifying an element that is there sets it. -/
theorem modify_eq_set_of_getElem? (g : α → α) {xs : List α} {i : Nat} {x : α}
    (hx : xs[i]? = some x) : xs.modify i g = xs.set i (g x) := by
  apply List.ext_getElem?
  intro j
  rw [List.getElem?_modify, List.getElem?_set]
  by_cases hj : i = j
  · subst hj
    obtain ⟨hi, rfl⟩ := List.getElem?_eq_some_iff.mp hx
    simp [hi]
  · simp [hj]

end Lists

/-- Writing one cell of a block. -/
theorem Block.stored_withValue (b : Block V) {i : Nat} (hi : i < b.size) (o : Option V) :
    ((b.withValue i o).stored : Multiset V) + (b.value? i).toList =
      (b.stored : Multiset V) + o.toList := by
  obtain ⟨x, hx⟩ : ∃ x, b.contents[i]? = some x :=
    ⟨_, List.getElem?_eq_getElem (by rw [length_contents]; exact hi)⟩
  have := coe_flatMap_set Option.toList o hx
  rw [value?_eq, hx, stored, contents_withValue]
  exact this

namespace Heap

@[simp] theorem held_log (h : Heap V) (e : Event V) : (h.log e).held = h.held := rfl

@[simp] theorem held_expect (h : Heap V) (b : BlockId) (n : Nat) :
    (h.expect b n).held = h.held := by
  rw [expect]
  split <;> rfl

@[simp] theorem held_setCount (h : Heap V) (b : BlockId) (n : Nat) :
    (h.setCount b n).held = h.held := by
  simp only [held, setCount, mapBlock]
  rw [flatMap_modify]
  intro o
  cases o <;> rfl

@[simp] theorem held_setShares (h : Heap V) (p : PayloadId) (n : Nat) :
    (h.setShares p n).held = h.held := by
  simp only [held, setShares]
  rw [flatMap_modify Payload.parts]
  intro payload
  rfl

@[simp] theorem held_addBlock (h : Heap V) (n : Nat) : (h.addBlock n).held = h.held := by
  simp [held, addBlock]

/-- Taking out or replacing a block. -/
theorem held_set_block {h : Heap V} {b : BlockId} {block : Block V}
    (hb : h.block? b = some block) (o : Option (Block V)) :
    { h with blocks := h.blocks.set b o }.held + block.stored =
      h.held + o.elim [] Block.stored := by
  have := coe_flatMap_set (fun o => o.elim [] Block.stored) o (block?_eq_some_iff.mp hb)
  simp only [Option.elim_some] at this
  simp only [held]
  rw [add_right_comm, this, add_right_comm]

theorem held_setValue {h : Heap V} {b : BlockId} {block : Block V}
    (hb : h.block? b = some block) {i : Nat} (hi : i < block.size) (o : Option V) :
    (h.setValue b i o).held + (h.value? b i).toList = h.held + o.toList := by
  have hset : h.setValue b i o =
      { h with blocks := h.blocks.set b (some (block.withValue i o)) } := by
    rw [setValue, mapBlock, modify_eq_set_of_getElem? _ (block?_eq_some_iff.mp hb)]
    rfl
  have hheld := held_set_block hb (some (block.withValue i o))
  have hstored := block.stored_withValue hi o
  rw [value?, hb, Option.bind_some, hset]
  simp only [Option.elim_some] at hheld
  -- there is no subtraction, so what the block held before is added on both sides
  apply add_right_cancel (b := (block.stored : Multiset V))
  calc _ = h.held + ((block.withValue i o).stored + (block.value? i).toList) := by
        rw [add_right_comm, hheld, add_assoc]
    _ = _ := by
        rw [hstored, add_right_comm, add_assoc]

theorem value?_setValue {h : Heap V} {b : BlockId} {block : Block V}
    (hb : h.block? b = some block) {i : Nat} (hi : i < block.size) (o : Option V) (c : BlockId)
    (j : Nat) : (h.setValue b i o).value? c j = if c = b ∧ j = i then o else h.value? c j := by
  simp only [value?]
  rw [block?_setValue]
  by_cases hc : c = b
  · subst hc
    rw [if_pos rfl, hb, Option.map_some, Option.bind_some, Option.bind_some, Block.value?_eq,
      Block.contents_withValue]
    by_cases hj : j = i
    · subst hj
      rw [if_pos ⟨rfl, rfl⟩, List.getElem?_set_self (by rw [Block.length_contents]; exact hi),
        Option.join_some]
    · rw [if_neg (fun hh => hj hh.2), List.getElem?_set_ne (Ne.symm hj), Block.value?_eq]
  · rw [if_neg hc, if_neg (fun hh => hc hh.1)]

/-- An exchange writes the two cells one after the other. -/
theorem swap_eq {h : Heap V} {b c : BlockId} {block other : Block V}
    (hb : h.block? b = some block) {i j : Nat} (hi : i < block.size)
    (hc : h.block? c = some other) (hj : j < other.size) :
    h.swap b i c j = (h.setValue b i (h.value? c j)).setValue c j (h.value? b i) := by
  rw [swap, touch_eq hb hi, touch_eq hc hj]

theorem exists_block_setValue {h : Heap V} (b : BlockId) (i : Nat) (o : Option V) {c : BlockId}
    {other : Block V} (hc : h.block? c = some other) :
    ∃ block, (h.setValue b i o).block? c = some block ∧ block.size = other.size := by
  rw [block?_setValue, hc]
  split
  · exact ⟨_, rfl, Block.size_withValue ..⟩
  · exact ⟨_, rfl, rfl⟩

theorem held_swap {h : Heap V} {b c : BlockId} {block other : Block V}
    (hb : h.block? b = some block) {i j : Nat} (hi : i < block.size)
    (hc : h.block? c = some other) (hj : j < other.size) : (h.swap b i c j).held = h.held := by
  obtain ⟨other', hc', hsize⟩ := exists_block_setValue b i (h.value? c j) hc
  have hfirst := held_setValue hb hi (h.value? c j)
  have hsecond := held_setValue hc' (by rw [hsize]; exact hj) (h.value? b i)
  -- whether the cells are one or two, the second now holds what it held at first
  have hvalue : (h.setValue b i (h.value? c j)).value? c j = h.value? c j := by
    rw [value?_setValue hb hi]
    split <;> rfl
  rw [hvalue, hfirst] at hsecond
  rw [swap_eq hb hi hc hj]
  exact add_right_cancel hsecond

theorem held_destroy {h : Heap V} {b : BlockId} {block : Block V} (hb : h.block? b = some block)
    (n : Nat) : (h.destroy b n).held + block.stored = h.held := by
  have := held_set_block hb none
  simp only [Option.elim_none, Multiset.coe_nil, add_zero] at this
  exact this

theorem held_clearPayload {h : Heap V} {p : PayloadId} {payload : Payload V}
    (hp : h.payloads[p]? = some payload) :
    (h.clearPayload p).held + payload.parts = h.held := by
  have := coe_flatMap_set Payload.parts ⟨0, []⟩ hp
  simp only [held, clearPayload, add_assoc]
  rw [this]
  simp

/-- The heap with one more payload, shared once. -/
def addPayload (h : Heap V) (parts : List V) : Heap V :=
  { h with payloads := h.payloads ++ [⟨1, parts⟩] }

theorem held_addPayload (h : Heap V) (parts : List V) :
    (h.addPayload parts).held = h.held + parts := by
  simp only [held, addPayload, List.flatMap_append, List.flatMap_singleton, ← Multiset.coe_add,
    add_assoc]

end Heap
end CountedCells

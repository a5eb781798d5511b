import CountedCells.Heap.Basic
import CountedCells.Total

/-!
# Giving references back

Giving back the last reference to a block destroys it, and its cells give back what they held.
Giving back the last share of a payload gives back what its parts own. One release can so set off
a **cascade** through any part of the heap.

A cascade is run from a list of pending tasks. Carrying out the first task may put further tasks
in front of the others, so everything that one value sets free is free before the next value is
looked at: the order is depth first. A block is destroyed in one piece: before any of its values
is given back it is gone, the statistics are lowered and the event is recorded.

The cascade ends on every heap, whatever points to whatever, because every task that adds tasks
uses up a block or the parts of a payload (`Task.weight_carryOut_lt`).
-/

namespace CountedCells

/-- Something that a cascade still has to do. -/
inductive Task (V : Type) where
  /-- give back a reference -/
  | drop (r : Ref)
  /-- give back a value, and report it -/
  | disown (holder : Holder) (v : V)

namespace Heap

variable {V : Type}

/-- The heap without a block of `n` cells. -/
def destroy (h : Heap V) (b : BlockId) (n : Nat) : Heap V :=
  { h with
    blocks := h.blocks.set b none
    stats := ⟨h.stats.liveCells - n, h.stats.liveBlocks - 1⟩
    trace := .destroyed n b :: h.trace }

/-- The heap with the parts of a payload taken out; nobody shares it any more. -/
def clearPayload (h : Heap V) (p : PayloadId) : Heap V :=
  { h with payloads := h.payloads.set p ⟨0, []⟩ }

end Heap

/-! ## One task -/

namespace Task

variable {V : Type} [Host V]

/-- Drop what a value owns. -/
def dropsOf (v : V) : List (Task V) := (Host.ref v).toList.map .drop

/-- Carry out one task: the tasks it leads to, and the heap after it. The cells of a block go in
order. The parts of a payload have no order of their own, as the entries of a dictionary have none;
they go as they are listed, and only the trace can tell. -/
def carryOut (t : Task V) (h : Heap V) : List (Task V) × Heap V :=
  match t with
  | disown holder v => (dropsOf v, h.log (.disowned holder v h.stats))
  | drop (.block b n) =>
    let h := h.expect b n
    match h.block? b with
    | none => ([], h)
    | some block =>
      match block.count with
      | 0 => ([], h.log (.droppedExpired b))
      | 1 => ((block.values n).map (.disown .cell), h.destroy b n)
      | count + 2 => ([], h.setCount b (count + 1))
  | drop (.payload p) =>
    match h.payloads[p]? with
    | none => ([], h)
    | some payload =>
      match payload.shares with
      | 0 => ([], h)
      | 1 => (payload.parts.flatMap dropsOf, h.clearPayload p)
      | shares + 2 => ([], h.setShares p (shares + 1))

/-! ## Why a cascade ends -/

/-- What a pending task counts for. -/
def weight : Task V → Nat
  | drop _ => 1
  | disown _ _ => 2

/-- What a list of pending tasks counts for. -/
def weights (ts : List (Task V)) : Nat := total weight ts

end Task

/-- What a block that may still be destroyed counts for: two for each cell. -/
def Block.weight {V : Type} : Option (Block V) → Nat
  | none => 0
  | some b => 2 * b.size

/-- What the heap can still add to a cascade. -/
def Heap.weight {V : Type} (h : Heap V) : Nat :=
  total Block.weight h.blocks + total (fun p => p.parts.length) h.payloads

namespace Heap

variable {V : Type} (h : Heap V)

@[simp] theorem weight_log (e : Event V) : (h.log e).weight = h.weight := rfl

@[simp] theorem weight_expect (b : BlockId) (n : Nat) : (h.expect b n).weight = h.weight := by
  unfold expect
  split <;> rfl

@[simp] theorem weight_setCount (b : BlockId) (n : Nat) : (h.setCount b n).weight = h.weight := by
  unfold weight setCount mapBlock
  rw [total_modify]
  intro x
  cases x <;> simp [Block.weight]

@[simp] theorem weight_setShares (p : PayloadId) (n : Nat) :
    (h.setShares p n).weight = h.weight := by
  unfold weight setShares
  rw [total_modify _ _ h.payloads]
  intro x
  rfl

theorem weight_destroy {b : BlockId} {block : Block V} (hb : h.block? b = some block) (n : Nat) :
    (h.destroy b n).weight + 2 * block.size = h.weight := by
  have hb' : h.blocks[b]? = some (some block) := by
    unfold block? at hb
    cases hx : h.blocks[b]? with
    | none => simp [hx] at hb
    | some x => simp_all
  have := total_set Block.weight h.blocks b (some block) none hb'
  simp only [weight, destroy, Block.weight] at this ⊢
  omega

theorem weight_clearPayload {p : PayloadId} {payload : Payload V}
    (hp : h.payloads[p]? = some payload) :
    (h.clearPayload p).weight + payload.parts.length = h.weight := by
  have := total_set (fun p : Payload V => p.parts.length) h.payloads p payload ⟨0, []⟩ hp
  simp only [weight, clearPayload] at this ⊢
  simp only [List.length_nil] at this
  omega

end Heap

namespace Task

variable {V : Type} [Host V]

theorem weights_dropsOf_le (v : V) : weights (dropsOf v) ≤ 1 := by
  unfold dropsOf
  cases Host.ref v <;> simp [weights, weight]

theorem weights_flatMap_dropsOf_le (vs : List V) : weights (vs.flatMap dropsOf) ≤ vs.length := by
  induction vs with
  | nil => simp [weights]
  | cons v vs ih =>
    have := weights_dropsOf_le v
    simp only [weights, List.flatMap_cons, total_append, List.length_cons] at *
    omega

omit [Host V] in
theorem weights_map_disown (holder : Holder) (vs : List V) :
    weights (vs.map (disown holder)) = 2 * vs.length := by
  induction vs with
  | nil => rfl
  | cons v vs ih =>
    simp only [weights, List.map_cons, total_cons, List.length_cons, weight] at *
    omega

/-- Every task uses up more than it leads to. -/
theorem weight_carryOut_lt (t : Task V) (h : Heap V) :
    weights (t.carryOut h).1 + (t.carryOut h).2.weight < t.weight + h.weight := by
  cases t with
  | disown holder v =>
    have := weights_dropsOf_le v
    simp only [carryOut, Heap.weight_log, weight]
    omega
  | drop r =>
    cases r with
    | block b n =>
      simp only [carryOut, weight]
      split
      · simp [weights]
      · rename_i block hb
        split
        · simp [weights]
        · have h₁ := (h.expect b n).weight_destroy hb n
          have h₂ := block.length_values_le n
          simp only [weights_map_disown, Heap.weight_expect] at h₁ ⊢
          omega
        · simp [weights]
    | payload p =>
      simp only [carryOut, weight]
      split
      · simp [weights]
      · rename_i payload hp
        split
        · simp [weights]
        · have h₁ := h.weight_clearPayload hp
          have h₂ := weights_flatMap_dropsOf_le payload.parts
          simp only
          omega
        · simp [weights]

end Task

/-! ## The cascade -/

namespace Heap

variable {V : Type} [Host V]

/-- Carry out pending tasks, and everything they lead to, until nothing is left to do. -/
def settle (tasks : List (Task V)) (h : Heap V) : Heap V :=
  match tasks with
  | [] => h
  | t :: ts => settle ((t.carryOut h).1 ++ ts) (t.carryOut h).2
  termination_by Task.weights tasks + h.weight
  decreasing_by
    have := t.weight_carryOut_lt h
    simp only [Task.weights, total_append, total_cons] at this ⊢
    omega

@[simp] theorem settle_nil (h : Heap V) : h.settle [] = h := by
  rw [settle]

theorem settle_cons (t : Task V) (ts : List (Task V)) (h : Heap V) :
    h.settle (t :: ts) = (t.carryOut h).2.settle ((t.carryOut h).1 ++ ts) := by
  rw [settle]

/-- Pending tasks are carried out completely, one after the other. -/
theorem settle_append (xs ys : List (Task V)) (h : Heap V) :
    h.settle (xs ++ ys) = (h.settle xs).settle ys := by
  fun_induction settle xs h with
  | case1 h => rfl
  | case2 h t ts ih => rw [List.cons_append, settle_cons, ← List.append_assoc, ih]

/-! ## Dropping owners -/

/-- The heap after a value was dropped. -/
def drop (h : Heap V) (v : V) : Heap V := h.settle (Task.dropsOf v)

/-- The heap after values were dropped, in order. -/
def dropAll (h : Heap V) (vs : List V) : Heap V := h.settle (vs.flatMap Task.dropsOf)

/-- The heap after a pointer was dropped. -/
def dropPointer (h : Heap V) (p : Pointer) : Heap V := h.settle (p.ref.toList.map .drop)

/-- The heap after a value was given back by whoever held it. -/
def disown (h : Heap V) (holder : Holder) (v : V) : Heap V := h.settle [.disown holder v]

@[simp] theorem dropAll_nil (h : Heap V) : h.dropAll [] = h := by
  simp [dropAll]

theorem dropAll_cons (h : Heap V) (v : V) (vs : List V) :
    h.dropAll (v :: vs) = (h.drop v).dropAll vs := by
  simp [dropAll, drop, settle_append]

end Heap

/-- What giving back a reference to a block did. -/
inductive Release where
  /-- other references remain -/
  | alive
  /-- it was the last, and the block is gone -/
  | destroyed
  /-- the count was zero already, and nothing was done -/
  | expired
  deriving DecidableEq, Inhabited, Repr

/-- The name of an outcome. -/
def Release.name : Release → String
  | alive => "Alive"
  | destroyed => "Destroyed"
  | expired => "Expired"

/-- Give back a reference to a block of `n` cells, and learn what that did. -/
def Heap.release {V : Type} [Host V] (h : Heap V) (b : BlockId) (n : Nat) : Release × Heap V :=
  match h.count b with
  | 0 => (.expired, h.expect b n)
  | 1 => (.destroyed, h.settle [.drop (.block b n)])
  | _ => (.alive, h.settle [.drop (.block b n)])

end CountedCells

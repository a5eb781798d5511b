import CountedCells.Proofs.Face
import CountedCells.Proofs.Held
import CountedCells.Session.Basic
import Mathlib.Algebra.BigOperators.Group.List.Basic
import Mathlib.Data.Multiset.Filter
import Mathlib.Data.Multiset.Count
import Mathlib.Logic.Relation

/-!
# The ledger: who owns which reference

Every reference has an owner. Some owners are in the heap, in a cell or inside a payload; the
others are outside: the registers of a session, and whatever an operation holds while it runs. A
`Ledger` is a heap with its outside owners, so that in the middle of an operation nothing is left
out. It also remembers what was ever written to each cell, of destroyed blocks too, which the heap
does not need and never looks at.

`Move` lists everything that can happen to a ledger, one small change at a time: a reference is
taken or given back, a value is put into a cell, a payload is shared out, a block is made. It is
the **only** description of the heap's behaviour that the invariants look at. That operations are
made of moves is proved once, for each operation; that moves keep an invariant is proved once for
each invariant.
-/

namespace CountedCells

/-- The block that a reference keeps, if it keeps one. -/
def Ref.block? : Ref → Option BlockId
  | .block b _ => some b
  | .payload _ => none

/-! ## Owners -/

/-- Somebody outside the heap who owns a reference. -/
inductive Owner (V : Type) where
  /-- a pointer, a raw block, or whoever is about to give the reference back -/
  | ref (r : Ref)
  /-- whoever has a value, for a cell or for a caller -/
  | value (holder : Holder) (v : V)

namespace Owner

variable {V : Type}

/-- Owners of values, one for each in a list. -/
def ofValues (holder : Holder) (vs : List V) : Multiset (Owner V) :=
  (vs.map (value holder) : List (Owner V))

@[simp] theorem ofValues_nil (holder : Holder) : ofValues holder ([] : List V) = 0 := rfl

@[simp] theorem ofValues_cons (holder : Holder) (v : V) (vs : List V) :
    ofValues holder (v :: vs) = {value holder v} + ofValues holder vs := rfl

@[simp] theorem ofValues_append (holder : Holder) (vs ws : List V) :
    ofValues holder (vs ++ ws) = ofValues holder vs + ofValues holder ws := by
  simp only [ofValues, List.map_append, Multiset.coe_add]

theorem ofValues_reverse (holder : Holder) (vs : List V) :
    ofValues holder vs.reverse = ofValues holder vs := by
  simp only [ofValues]
  rw [List.map_reverse, Multiset.coe_reverse]

/-- The owner of a pointer's reference, if the pointer is not null. -/
def ofPointer (p : Pointer) : Multiset (Owner V) := (p.ref.toList.map ref : List (Owner V))

/-- The owners of the references of pointers. -/
def ofPointers (ps : List Pointer) : Multiset (Owner V) := (ps.map ofPointer).sum

@[simp] theorem ofPointers_nil : (ofPointers [] : Multiset (Owner V)) = 0 := rfl

@[simp] theorem ofPointers_cons (p : Pointer) (ps : List Pointer) :
    (ofPointers (p :: ps) : Multiset (Owner V)) = ofPointer p + ofPointers ps := List.sum_cons

theorem ofPointers_concat (ps : List Pointer) (p : Pointer) :
    (ofPointers (ps ++ [p]) : Multiset (Owner V)) = ofPointer p + ofPointers ps := by
  rw [ofPointers, List.map_append, List.sum_append, add_comm]
  simp [ofPointers]

/-- The owners of a raw block's references. -/
def ofRaw (u : RawBlock) : Multiset (Owner V) :=
  Multiset.replicate u.owned (ref (.block u.block u.size))

theorem ofRaw_succ_add (b n k : Nat) (os : Multiset (Owner V)) :
    ofRaw ⟨b, n, k + 1⟩ + os = ofRaw ⟨b, n, k⟩ + ({ref (.block b n)} + os) := by
  simp only [ofRaw]
  rw [Multiset.replicate_succ, ← Multiset.singleton_add]
  abel

/-- Whoever waits for tasks to be carried out. -/
def ofTask : Task V → Owner V
  | .drop r => ref r
  | .disown holder v => value holder v

/-- Owners of what tasks will give back. -/
def ofTasks (ts : List (Task V)) : Multiset (Owner V) := (ts.map ofTask : List (Owner V))

@[simp] theorem ofTasks_nil : ofTasks ([] : List (Task V)) = 0 := rfl

@[simp] theorem ofTasks_cons (t : Task V) (ts : List (Task V)) :
    ofTasks (t :: ts) = {ofTask t} + ofTasks ts := rfl

@[simp] theorem ofTasks_append (ts us : List (Task V)) :
    ofTasks (ts ++ us) = ofTasks ts + ofTasks us := by
  simp only [ofTasks, List.map_append, Multiset.coe_add]

@[simp] theorem ofTasks_disown (holder : Holder) (vs : List V) :
    ofTasks (vs.map (.disown holder)) = ofValues holder vs := by
  simp only [ofTasks, ofValues, List.map_map]
  rfl

theorem ofTasks_drop_ref (p : Pointer) :
    ofTasks (p.ref.toList.map .drop : List (Task V)) = ofPointer p := by
  simp only [ofTasks, ofPointer, List.map_map]
  rfl

variable [Host V]

/-- The owner of what a value owns, without the value. -/
def ofRef (v : V) : Multiset (Owner V) := ((Host.ref v).toList.map ref : List (Owner V))

theorem ofTasks_dropsOf (v : V) : ofTasks (Task.dropsOf v) = ofRef v := by
  simp only [ofTasks, ofRef, Task.dropsOf, List.map_map]
  rfl

/-- The reference that is owned. -/
def ref? : Owner V → Option Ref
  | ref r => some r
  | value _ v => Host.ref v

/-! ### The values of many owners -/

omit [Host V] in
@[simp] theorem value_mem_add_ref {holder : Holder} {v : V} {r : Ref} {os : Multiset (Owner V)} :
    value holder v ∈ {ref r} + os ↔ value holder v ∈ os := by
  simp

omit [Host V] in
theorem value_mem_ofValues {holder holder' : Holder} {v : V} {vs : List V} :
    value holder' v ∈ ofValues holder vs ↔ holder' = holder ∧ v ∈ vs := by
  simp only [ofValues, Multiset.mem_coe, List.mem_map]
  constructor
  · rintro ⟨w, hw, heq⟩
    cases heq
    exact ⟨rfl, hw⟩
  · rintro ⟨rfl, hv⟩
    exact ⟨v, hv, rfl⟩

theorem value_notMem_ofRef {holder : Holder} {v w : V} : value holder v ∉ ofRef w := by
  intro h
  obtain ⟨r, -, heq⟩ := List.mem_map.mp (Multiset.mem_coe.mp h)
  cases heq

theorem value_notMem_dropsOf {holder : Holder} {v : V} {ws : List V} :
    value holder v ∉ ofTasks (ws.flatMap Task.dropsOf) := by
  intro h
  obtain ⟨t, ht, heq⟩ := List.mem_map.mp (Multiset.mem_coe.mp h)
  obtain ⟨w, -, ht⟩ := List.mem_flatMap.mp ht
  obtain ⟨r, -, rfl⟩ := List.mem_map.mp ht
  cases heq

/-! ### The references of many owners -/

/-- The references that are owned. -/
def refs (os : Multiset (Owner V)) : Multiset Ref := os.filterMap ref?

theorem mem_refs {os : Multiset (Owner V)} {r : Ref} : r ∈ refs os ↔ ∃ o ∈ os, o.ref? = some r :=
  Multiset.mem_filterMap ref? os

@[simp] theorem refs_zero : refs (0 : Multiset (Owner V)) = 0 := rfl

@[simp] theorem refs_add (os os' : Multiset (Owner V)) : refs (os + os') = refs os + refs os' :=
  Multiset.filterMap_add _ os os'

theorem mem_refs_add (os' : Multiset (Owner V)) {os : Multiset (Owner V)} {r : Ref}
    (hr : r ∈ refs os) : r ∈ refs (os' + os) := by
  rw [refs_add]
  exact Multiset.mem_add.mpr (.inr hr)

@[simp] theorem refs_ref (r : Ref) : refs ({ref r} : Multiset (Owner V)) = {r} := rfl

@[simp] theorem refs_value (holder : Holder) (v : V) :
    refs {value holder v} = ((Host.ref v).toList : Multiset Ref) := by
  show ((List.filterMap ref? [value holder v] : List Ref) : Multiset Ref) = _
  rcases hv : Host.ref v <;> simp [ref?, hv]

@[simp] theorem refs_ofRef (v : V) : refs (ofRef v) = ((Host.ref v).toList : Multiset Ref) := by
  rw [ofRef]
  cases Host.ref v <;> rfl

@[simp] theorem refs_ofPointer (p : Pointer) :
    refs (ofPointer p : Multiset (Owner V)) = (p.ref.toList : Multiset Ref) := by
  cases p <;> rfl

@[simp] theorem refs_ofValues (holder : Holder) (vs : List V) :
    refs (ofValues holder vs) = (vs : Multiset V).filterMap Host.ref := by
  show ((List.filterMap ref? (vs.map (value holder)) : List Ref) : Multiset Ref) = _
  rw [List.filterMap_map]
  rfl

@[simp] theorem refs_dropsOf (vs : List V) :
    refs (ofTasks (vs.flatMap Task.dropsOf)) = (vs : Multiset V).filterMap Host.ref := by
  induction vs with
  | nil => rfl
  | cons v vs ih =>
    have hcons : ((v :: vs : List V) : Multiset V) = {v} + (vs : Multiset V) := rfl
    rw [List.flatMap_cons, ofTasks_append, refs_add, ih, ofTasks_dropsOf, refs_ofRef, hcons,
      Multiset.filterMap_add]
    congr 1

end Owner

/-! ## Ledgers -/

/-- What was written to the cells of each block, by number; nothing is ever forgotten. -/
abbrev Written (V : Type) := List (List (Option V))

namespace Written

variable {V : Type}

/-- The record of one more content of a cell. -/
def put (w : Written V) (b : BlockId) (i : Nat) (o : Option V) : Written V :=
  w.modify b (·.set i o)

/-- What a cell was last written, if it was. -/
def at? (w : Written V) (b : BlockId) (i : Nat) : Option V := (w[b]?.bind (·[i]?)).join

end Written

/-- A heap with everybody who owns a reference from outside. -/
structure Ledger (V : Type) where
  /-- the heap -/
  heap : Heap V
  /-- the owners outside -/
  owners : Multiset (Owner V)
  /-- what was written -/
  written : Written V

section

variable {V : Type} [Host V]

/-- The heap with one more reference of a kind that is owned already. -/
def Heap.take (h : Heap V) : Ref → Heap V
  | .block b _ => h.setCount b (h.count b + 1)
  | .payload p => h.setShares p (h.shares p + 1)

/-- A value that owns a share of a payload finds its parts there. -/
def Backed [Faced V] (h : Heap V) (v : V) : Prop :=
  ∀ p, Host.ref v = some (.payload p) →
    ∃ payload : Payload V, h.payloads[p]? = some payload ∧
      (face v).children = payload.parts.map face

namespace Ledger

/-- A ledger before anything has happened. -/
def empty (system : System) : Ledger V := ⟨.empty system, 0, []⟩

/-- The references that are owned, in the heap and outside. -/
def refs (l : Ledger V) : Multiset Ref := l.heap.held.filterMap Host.ref + Owner.refs l.owners

/-- The number of owners of a block. -/
def ownersOf (l : Ledger V) (b : BlockId) : Nat := l.refs.countP (·.block? = some b)

/-- The number of owners of a payload. -/
def sharersOf (l : Ledger V) (p : PayloadId) : Nat := l.refs.count (.payload p)

/-- Somebody has the value. -/
def Has (l : Ledger V) (v : V) : Prop :=
  v ∈ l.heap.held ∨ ∃ holder, Owner.value holder v ∈ l.owners

theorem mem_refs_of_has {l : Ledger V} {v : V} {r : Ref} (hv : l.Has v)
    (hr : Host.ref v = some r) : r ∈ l.refs := by
  rcases hv with hv | ⟨holder, hv⟩
  · exact Multiset.mem_add.mpr (.inl ((Multiset.mem_filterMap _ _).mpr ⟨v, hv, hr⟩))
  · exact Multiset.mem_add.mpr (.inr (Owner.mem_refs.mpr ⟨_, hv, hr⟩))

end Ledger

/-! ## Moves -/

/-- Events that tell of nothing but themselves. -/
def Event.IsNote : Event V → Prop
  | .upgraded _ | .rebuilt _ _ => True
  | _ => False

variable [Faced V]

/-- Everything that can happen to a ledger. -/
inductive Move : Ledger V → Ledger V → Prop where
  /-- a block is made, and its first reference is given out -/
  | allocate {h : Heap V} {os w} {n : Nat} (hn : h.refusal n = none) :
      Move ⟨h, os, w⟩
        ⟨h.addBlock n, {.ref (.block h.blocks.length n)} + os, w ++ [List.replicate n none]⟩
  /-- one more reference is taken of what somebody owns; a block must have a count that can be
  raised -/
  | take {h : Heap V} {os w} {r : Ref} (hr : r ∈ Ledger.refs ⟨h, os, w⟩)
      (hlive : ∀ b n, r = .block b n → 0 < h.count b)
      (hroom : ∀ b n, r = .block b n → h.count b + 1 < Config.countRange) :
      Move ⟨h, os, w⟩ ⟨h.take r, {.ref r} + os, w⟩
  /-- a value gets the reference that it owns -/
  | adopt {h : Heap V} {os w} {v : V} (hv : Backed h v) :
      Move ⟨h, Owner.ofRef v + os, w⟩ ⟨h, {.value .caller v} + os, w⟩
  /-- a value is put down, and the reference that it owned is left -/
  | part {h : Heap V} {os w} {v : V} :
      Move ⟨h, {.value .caller v} + os, w⟩ ⟨h, Owner.ofRef v + os, w⟩
  /-- values become the parts of a payload, of which a new value has the first share -/
  | share {h : Heap V} {os w} {v : V} {parts : List V}
      (hv : Host.ref v = some (.payload h.payloads.length))
      (hparts : (face v).children = parts.map face) :
      Move ⟨h, Owner.ofValues .caller parts + os, w⟩
        ⟨h.addPayload parts, {.value .caller v} + os, w⟩
  /-- it is reported that a reference to a value was taken -/
  | report {h : Heap V} {os w} {v : V} (holder : Holder) :
      Move ⟨h, {.value .caller v} + os, w⟩
        ⟨h.log (.acquired holder v h.stats), {.value holder v} + os, w⟩
  /-- a value is put into a cell, and what was there is taken out -/
  | write {h : Heap V} {os w} {v : V} {b : BlockId} {i : Nat} {block : Block V}
      (hb : h.block? b = some block) (hi : i < block.size) :
      Move ⟨h, {.value .cell v} + os, w⟩
        ⟨h.setValue b i (some v),
          Owner.ofValues .cell (h.value? b i).toList + os, w.put b i (some v)⟩
  /-- the contents of two cells change places -/
  | swap {h : Heap V} {os w} {b c : BlockId} {i j : Nat} {block other : Block V}
      (hb : h.block? b = some block) (hi : i < block.size) (hc : h.block? c = some other)
      (hj : j < other.size) :
      Move ⟨h, os, w⟩
        ⟨h.swap b i c j, os, (w.put b i (h.value? c j)).put c j (h.value? b i)⟩
  /-- a task is carried out, and others may be waiting after it -/
  | task {h : Heap V} {os w} (t : Task V) :
      Move ⟨h, {Owner.ofTask t} + os, w⟩
        ⟨(t.carryOut h).2, Owner.ofTasks (t.carryOut h).1 + os, w⟩
  /-- a reference to a block without a count is given back, and nobody takes notice -/
  | lapse {h : Heap V} {os w} {b : BlockId} {n : Nat} (hc : h.count b = 0) :
      Move ⟨h, {.ref (.block b n)} + os, w⟩ ⟨h, os, w⟩
  /-- something is noted that changes nothing -/
  | note {h : Heap V} {os w} {e : Event V} (he : e.IsNote) : Move ⟨h, os, w⟩ ⟨h.log e, os, w⟩
  /-- a pointer is rebuilt from an address for the first time -/
  | unsettle {h : Heap V} {os w} (hs : h.stable = true) :
      Move ⟨h, os, w⟩ ⟨({ h with stable := false }).log .unstable, os, w⟩
  /-- other settings are installed -/
  | configure {h : Heap V} {os w} (config : Config) : Move ⟨h, os, w⟩ ⟨{ h with config }, os, w⟩

/-- Any number of moves, one after the other. -/
abbrev Moves : Ledger V → Ledger V → Prop := Relation.ReflTransGen Move

end

end CountedCells

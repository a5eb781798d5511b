import CountedCells.Proofs.Acts
import Mathlib.Logic.Relator

/-!
# Congruences: relations between heaps that nothing can tell apart

Two runs of the same operations stay alike if they start alike. What "alike" means can vary: a
**congruence** is a relation between heaps that matches everything that is counted and that is kept
by the few ways in which a heap ever changes: a block is made or destroyed, a cell or a payload is
written, something is put on record. Then all operations respect it (`Attempt.Respects`): they give
the same result on related heaps, and leave related heaps behind. This asks nothing of the heaps: it
holds for blocks whose count is zero, and where a count is wrong.
-/

namespace CountedCells

open scoped Relator

/-! ## Operations that respect a relation -/

namespace Attempt

variable {ε σ α β : Type} {R : σ → σ → Prop}

/-- From related states, the operation gives the same result and leads to related states. -/
def Respects (R : σ → σ → Prop) (act : Attempt ε σ α) : Prop :=
  ∀ ⦃s t⦄, R s t → (act s).1 = (act t).1 ∧ R (act s).2 (act t).2

namespace Respects

protected theorem pure (a : α) : Respects R (pure a : Attempt ε σ α) := fun _ _ h => ⟨rfl, h⟩

protected theorem throw (e : ε) : Respects R (throw e : Attempt ε σ α) := fun _ _ h => ⟨rfl, h⟩

protected theorem ofExcept (x : Except ε α) : Respects R (ofExcept x : Attempt ε σ α) := by
  cases x with
  | error e => exact .throw e
  | ok a => exact .pure a

protected theorem update {f : σ → σ} (hf : (R ⇒ R) f f) :
    Respects R (update f : Attempt ε σ Unit) := fun _ _ h => ⟨rfl, hf h⟩

protected theorem look {f : σ → α} (hf : ∀ s t, R s t → f s = f t) :
    Respects R (look f : Attempt ε σ α) := fun s t h => ⟨congrArg Except.ok (hf s t h), h⟩

protected theorem find {f : σ → Except ε α} (hf : ∀ s t, R s t → f s = f t) :
    Respects R (find f) := fun s t h => ⟨hf s t h, h⟩

protected theorem change {f : σ → α × σ}
    (hf : ∀ ⦃s t⦄, R s t → (f s).1 = (f t).1 ∧ R (f s).2 (f t).2) :
    Respects R (change f : Attempt ε σ α) :=
  fun _ _ h => ⟨congrArg Except.ok (hf h).1, (hf h).2⟩

/-- An operation goes on where two others have come to with the same result. -/
theorem after {act act' : Attempt ε σ α} {f : α → Attempt ε σ β} {s t : σ}
    (hresult : (act s).1 = (act' t).1) (hstate : R (act s).2 (act' t).2)
    (hf : ∀ a, Respects R (f a)) :
    ((act >>= f) s).1 = ((act' >>= f) t).1 ∧ R ((act >>= f) s).2 ((act' >>= f) t).2 := by
  rcases hs : act s with ⟨e | a, s'⟩ <;> rcases ht : act' t with ⟨x, t'⟩ <;>
    rw [hs, ht] at hresult hstate
  · obtain rfl : .error e = x := hresult
    rw [bind_of_error hs, bind_of_error ht]
    exact ⟨rfl, hstate⟩
  · obtain rfl : .ok a = x := hresult
    rw [bind_of_ok hs, bind_of_ok ht]
    exact hf a hstate

protected theorem bind {act : Attempt ε σ α} {f : α → Attempt ε σ β} (hact : Respects R act)
    (hf : ∀ a, Respects R (f a)) : Respects R (act >>= f) :=
  fun _ _ h => after (hact h).1 (hact h).2 hf

protected theorem orElseUndo {act : Attempt ε σ α} {undo : σ → σ} (hact : Respects R act)
    (hundo : (R ⇒ R) undo undo) : Respects R (act.orElseUndo undo) := by
  intro s t h
  obtain ⟨hresult, hstate⟩ := hact h
  rcases hs : act s with ⟨e | a, s'⟩ <;> rcases ht : act t with ⟨x, t'⟩ <;>
    rw [hs, ht] at hresult hstate
  · obtain rfl : .error e = x := hresult
    simp only [orElseUndo, hs, ht]
    exact ⟨trivial, hundo hstate⟩
  · obtain rfl : .ok a = x := hresult
    simp only [orElseUndo, hs, ht]
    exact ⟨trivial, hstate⟩

protected theorem andFinally {act : Attempt ε σ α} {last : σ → σ} (hact : Respects R act)
    (hlast : (R ⇒ R) last last) : Respects R (act.andFinally last) :=
  fun _ _ h => ⟨(hact h).1, hlast (hact h).2⟩

end Respects

end Attempt

open Attempt

variable {V : Type}

/-! ## Congruences -/

namespace Heap

/-- The heap from which the flag is lost; the first time this is told. -/
def unsettled (h : Heap V) : Heap V :=
  if h.stable then ({ h with stable := false }).log .unstable else h

end Heap

/-- The pointer to `n` cells at an address, when the flag is lost already. -/
def Pointer.anchor (a : Address) (n : Nat) : Action V Pointer :=
  match a with
  | .sentinel | .zero => pure null
  | .block b => do
    Heap.retainUnchecked b
    .update (·.log (.rebuilt b n))
    pure (cells b n)

theorem Pointer.rebuild_apply (a : Address) (n : Nat) (h : Heap V) :
    Pointer.rebuild a n h = Pointer.anchor a n h.unsettled := by
  cases a <;> rfl

namespace Heap

/-- The same is counted in both heaps. -/
structure Matches (h g : Heap V) : Prop where
  /-- memory comes from the same system -/
  system : h.system = g.system
  /-- the blocks -/
  blocks : h.blocks = g.blocks
  /-- the payloads -/
  payloads : h.payloads = g.payloads
  /-- the statistics -/
  stats : h.stats = g.stats
  /-- the limit -/
  config : h.config = g.config

namespace Matches

variable {h g : Heap V}

theorem block? (hm : h.Matches g) (b : BlockId) : h.block? b = g.block? b := by
  rw [Heap.block?, Heap.block?, hm.blocks]

theorem count (hm : h.Matches g) (b : BlockId) : h.count b = g.count b := by
  rw [Heap.count, Heap.count, hm.block?]

theorem countAt (hm : h.Matches g) (b : BlockId) (i : Nat) : h.countAt b i = g.countAt b i := by
  rw [Heap.countAt, Heap.countAt, hm.block?]

theorem value? (hm : h.Matches g) (b : BlockId) (i : Nat) : h.value? b i = g.value? b i := by
  rw [Heap.value?, Heap.value?, hm.block?]

theorem shares (hm : h.Matches g) (p : PayloadId) : h.shares p = g.shares p := by
  rw [Heap.shares, Heap.shares, hm.payloads]

theorem refCount (hm : h.Matches g) (p : Pointer) : p.refCount h = p.refCount g := by
  cases p with
  | null => rfl
  | cells b n => exact hm.count b

theorem refusal (hm : h.Matches g) (n : Nat) : h.refusal n = g.refusal n := by
  rw [Heap.refusal, Heap.refusal, hm.config, hm.stats, hm.system]

end Matches
end Heap

/-- The event tells of something other than a block that is made or destroyed, or the flag; with
these statistics, if it tells any. -/
def Event.Aside (st : Stats) : Event V → Prop
  | .allocated _ _ | .destroyed _ _ | .unstable => False
  | .acquired _ _ st' | .disowned _ _ st' => st' = st
  | _ => True

/-- Relations between heaps that match what is counted and are kept by whatever changes it. -/
structure Congruence (R : Heap V → Heap V → Prop) : Prop where
  /-- what is counted matches -/
  alike : ∀ ⦃h g⦄, R h g → h.Matches g
  /-- a block is made -/
  addBlock : ∀ ⦃h g⦄ n, R h g → h.refusal n = none → R (h.addBlock n) (g.addBlock n)
  /-- a block is destroyed -/
  destroy : ∀ b n, (R ⇒ R) (Heap.destroy · b n) (Heap.destroy · b n)
  /-- a block is changed -/
  mapBlock : ∀ b f, (R ⇒ R) (Heap.mapBlock · b f) (Heap.mapBlock · b f)
  /-- the payloads are changed -/
  payloads : ∀ ps, (R ⇒ R) ({ · with payloads := ps }) ({ · with payloads := ps })
  /-- something else is told -/
  log : ∀ ⦃h g⦄ e, R h g → e.Aside h.stats → R (h.log e) (g.log e)
  /-- an access finds nothing -/
  stray : ∀ ⦃h g⦄ a, R h g →
    R { h with strays := a :: h.strays } { g with strays := a :: g.strays }

namespace Congruence

variable {R : Heap V → Heap V → Prop} (hR : Congruence R)

include hR

/-! ## Changes of a heap -/

theorem setCount (b : BlockId) (n : Nat) : (R ⇒ R) (Heap.setCount · b n) (Heap.setCount · b n) :=
  hR.mapBlock b _

theorem setValue (b : BlockId) (i : Nat) (v : Option V) :
    (R ⇒ R) (Heap.setValue · b i v) (Heap.setValue · b i v) :=
  hR.mapBlock b _

theorem setShares (p : PayloadId) (n : Nat) :
    (R ⇒ R) (Heap.setShares · p n) (Heap.setShares · p n) := by
  intro h g hr
  simp only [Heap.setShares, (hR.alike hr).payloads]
  exact hR.payloads _ hr

theorem clearPayload (p : PayloadId) :
    (R ⇒ R) (Heap.clearPayload · p) (Heap.clearPayload · p) := by
  intro h g hr
  simp only [Heap.clearPayload, (hR.alike hr).payloads]
  exact hR.payloads _ hr

theorem touch (b : BlockId) (i : Nat) : (R ⇒ R) (Heap.touch · b i) (Heap.touch · b i) := by
  intro h g hr
  simp only [Heap.touch, (hR.alike hr).block?]
  split
  · exact hr
  · exact hR.stray _ hr

theorem expect (b : BlockId) (n : Nat) : (R ⇒ R) (Heap.expect · b n) (Heap.expect · b n) := by
  intro h g hr
  simp only [Heap.expect, (hR.alike hr).block?]
  split
  · exact hr
  · exact hR.stray _ hr

theorem swap (b : BlockId) (i : Nat) (c : BlockId) (j : Nat) :
    (R ⇒ R) (Heap.swap b i c j) (Heap.swap b i c j) := by
  intro h g hr
  simp only [Heap.swap, (hR.alike hr).value?]
  exact hR.setValue c j _ (hR.setValue b i _ (hR.touch c j (hR.touch b i hr)))

/-! ## Giving references back -/

section

variable [Host V]

/-- A task leads to the same tasks. -/
theorem carryOut (t : Task V) ⦃h g : Heap V⦄ (hr : R h g) :
    (t.carryOut h).1 = (t.carryOut g).1 ∧ R (t.carryOut h).2 (t.carryOut g).2 := by
  cases t with
  | disown holder v =>
    refine ⟨rfl, ?_⟩
    simp only [Task.carryOut, (hR.alike hr).stats]
    exact hR.log _ hr (hR.alike hr).stats.symm
  | drop r =>
    cases r with
    | block b n =>
      have hr' := hR.expect b n hr
      simp only [Task.carryOut, (hR.alike hr').block?]
      split
      · exact ⟨rfl, hr'⟩
      · split
        · exact ⟨rfl, hR.log _ hr' trivial⟩
        · exact ⟨rfl, hR.destroy b n hr'⟩
        · exact ⟨rfl, hR.setCount b _ hr'⟩
    | payload p =>
      simp only [Task.carryOut, (hR.alike hr).payloads]
      split
      · exact ⟨rfl, hr⟩
      · split
        · exact ⟨rfl, hr⟩
        · exact ⟨rfl, hR.clearPayload p hr⟩
        · exact ⟨rfl, hR.setShares p _ hr⟩

/-- A cascade runs through the same tasks. -/
theorem settle (ts : List (Task V)) : (R ⇒ R) (Heap.settle ts) (Heap.settle ts) := by
  intro h g hr
  fun_induction Heap.settle ts h generalizing g with
  | case1 h =>
    rw [Heap.settle_nil]
    exact hr
  | case2 h t ts ih =>
    obtain ⟨htasks, hheap⟩ := hR.carryOut t hr
    rw [Heap.settle_cons, ← htasks]
    exact ih hheap

theorem drop (v : V) : (R ⇒ R) (Heap.drop · v) (Heap.drop · v) := hR.settle _

theorem dropAll (vs : List V) : (R ⇒ R) (Heap.dropAll · vs) (Heap.dropAll · vs) := hR.settle _

theorem dropPointer (p : Pointer) : (R ⇒ R) (Heap.dropPointer · p) (Heap.dropPointer · p) :=
  hR.settle _

theorem disown (holder : Holder) (v : V) :
    (R ⇒ R) (Heap.disown · holder v) (Heap.disown · holder v) :=
  hR.settle _

theorem release (b : BlockId) (n : Nat) ⦃h g : Heap V⦄ (hr : R h g) :
    (h.release b n).1 = (g.release b n).1 ∧ R (h.release b n).2 (g.release b n).2 := by
  simp only [Heap.release, (hR.alike hr).count]
  split
  · exact ⟨rfl, hR.expect b n hr⟩
  · exact ⟨rfl, hR.settle _ hr⟩
  · exact ⟨rfl, hR.settle _ hr⟩

theorem giveBack (u : RawBlock) : (R ⇒ R) u.giveBack u.giveBack := by
  intro h g hr
  simp only [RawBlock.giveBack]
  induction u.owned with
  | zero => exact hr
  | succ k ih => exact (hR.release u.block u.size ih).2

end

omit hR in
/-- What keeps a relation one by one keeps it for all elements of a list. -/
theorem foldl {α : Type} {f : Heap V → α → Heap V} (hf : ∀ a, (R ⇒ R) (f · a) (f · a))
    (as : List α) : (R ⇒ R) (as.foldl f) (as.foldl f) := by
  intro h g hr
  induction as generalizing h g with
  | nil => exact hr
  | cons a as ih => exact ih (hf a hr)

/-! ## Cells -/

theorem allocate (n : Nat) : Respects R (Heap.allocate n : Action V BlockId) := by
  intro h g hr
  simp only [Heap.allocate, ← (hR.alike hr).refusal]
  split
  · exact ⟨rfl, hr⟩
  · rename_i hn
    exact ⟨congrArg (fun bs => Except.ok (List.length bs)) (hR.alike hr).blocks,
      hR.addBlock n hr hn⟩

theorem raise (b : BlockId) : Respects R (Heap.raise b : Action V Unit) := by
  intro h g hr
  simp only [Heap.raise, (hR.alike hr).count]
  split
  · exact ⟨rfl, hR.setCount b _ hr⟩
  · exact ⟨rfl, hr⟩

theorem retainOr (f : Fault) (b : BlockId) : Respects R (Heap.retainOr f b : Action V Unit) := by
  intro h g hr
  simp only [Heap.retainOr, (hR.alike hr).count]
  split
  · exact ⟨rfl, hR.touch b 0 hr⟩
  · exact hR.raise b hr

theorem retainUnchecked (b : BlockId) : Respects R (Heap.retainUnchecked b : Action V Unit) :=
  .bind (.update (hR.touch b 0)) fun _ => hR.raise b

theorem copyRef (r : Ref) : Respects R (Heap.copyRef r : Action V Unit) := by
  cases r with
  | block b n => exact hR.retainOr _ b
  | payload p =>
    refine .update fun h g hr => ?_
    simp only [(hR.alike hr).shares]
    exact hR.setShares p _ hr

/-- Something is told that has nothing to do with the statistics. -/
theorem tell {e : Event V} (he : ∀ st, e.Aside st) :
    Respects R (Attempt.update (·.log e) : Action V Unit) :=
  .update fun _ _ hr => hR.log e hr (he _)

section

variable [Host V]

theorem copy (v : V) : Respects R (Heap.copy v : Action V Unit) := by
  rw [Heap.copy]
  cases Host.ref v with
  | none => exact .pure ()
  | some r => exact hR.copyRef r

theorem acquire (holder : Holder) (v : V) : Respects R (Heap.acquire holder v : Action V Unit) := by
  refine .bind (hR.copy v) fun _ => .update fun h g hr => ?_
  simp only [(hR.alike hr).stats]
  exact hR.log _ hr (hR.alike hr).stats.symm

theorem replace (b : BlockId) (i : Nat) (v : V) :
    (R ⇒ R) (Heap.replace b i v) (Heap.replace b i v) := by
  intro h g hr
  simp only [Heap.replace, (hR.alike hr).value?]
  split
  · exact hR.setValue b i _ (hR.touch b i hr)
  · exact hR.disown .cell _ (hR.setValue b i _ hr)

theorem store (b : BlockId) (i : Nat) (v : V) : Respects R (Heap.store b i v : Action V Unit) :=
  .bind (hR.acquire .cell v) fun _ => .update (hR.replace b i v)

theorem read (b : BlockId) (i : Nat) : Respects R (Heap.read b i : Action V V) := by
  refine .bind (.update (hR.touch b i)) fun _ => ?_
  refine .bind (.look fun h g hr => (hR.alike hr).value? b i) fun o => ?_
  cases o with
  | none => exact .pure default
  | some v => exact .bind (hR.acquire .caller v) fun _ => .pure v

end

/-! ## Pointers -/

omit hR in
theorem checked {α : Type} (x : Except HeapError α) :
    Respects R (Pointer.checked x : Action V α) := by
  cases x with
  | error e => exact .throw _
  | ok a => exact .pure a

theorem bind (p : Pointer) : Respects R (p.bind : Action V Pointer) := by
  cases p with
  | null => exact .pure _
  | cells b n => exact .bind (hR.retainOr _ b) fun _ => .pure _

theorem copyPointer (p : Pointer) : Respects R (p.copy : Action V Pointer) := by
  cases p with
  | null => exact .pure _
  | cells b n => exact .bind (hR.copyRef _) fun _ => .pure _

theorem anchor (a : Address) (n : Nat) : Respects R (Pointer.anchor a n : Action V Pointer) := by
  cases a with
  | sentinel => exact .pure _
  | zero => exact .pure _
  | block b =>
    refine .bind (hR.retainUnchecked b) fun _ => ?_
    exact .bind (hR.tell fun _ => trivial) fun _ => .pure _

theorem rebuild (hflag : (R ⇒ R) Heap.unsettled Heap.unsettled) (a : Address) (n : Nat) :
    Respects R (Pointer.rebuild a n : Action V Pointer) := by
  intro h g hr
  rw [Pointer.rebuild_apply, Pointer.rebuild_apply]
  exact hR.anchor a n (hflag hr)

section

variable [Host V]

theorem get (p : Pointer) : Respects R (p.get : Action V V) :=
  .bind (checked _) fun b => hR.read b 0

theorem getAt (p : Pointer) (i : Nat) : Respects R (p.getAt i : Action V V) :=
  .bind (checked _) fun b => hR.read b i

theorem setAt (p : Pointer) (i : Nat) (v : V) : Respects R (p.setAt i v : Action V Unit) :=
  .bind (checked _) fun b => hR.store b i v

omit [Host V] in
theorem upgrade (p : Pointer) : Respects R (p.upgrade : Action V Pointer) := by
  cases p with
  | null =>
    refine .bind (hR.allocate 1) fun b => ?_
    exact .bind (hR.tell fun _ => trivial) fun _ => .pure _
  | cells b n => exact .pure _

theorem set (p : Pointer) (v : V) ⦃h g : Heap V⦄ (hr : R h g) :
    (p.set v h).1 = (p.set v g).1 ∧ R (p.set v h).2 (p.set v g).2 := by
  obtain ⟨hresult, hheap⟩ := hR.upgrade p hr
  rcases hh : p.upgrade h with ⟨f | q, h'⟩ <;> rcases hg : p.upgrade g with ⟨x, g'⟩ <;>
    rw [hh, hg] at hresult hheap
  · obtain rfl : .error f = x := hresult
    simp only [Pointer.set, hh, hg]
    exact ⟨trivial, hheap⟩
  · obtain rfl : .ok q = x := hresult
    have hwrite : Respects R (do Heap.store (← Pointer.checked q.scalar?) 0 v : Action V Unit) :=
      .bind (checked _) fun b => hR.store b 0 v
    obtain ⟨houtcome, hafter⟩ := hwrite hheap
    simp only [Pointer.set, hh, hg]
    exact ⟨congrArg _ houtcome, hafter⟩

omit [Host V] in
theorem swapCells (p q : Pointer) : Respects R (p.swap q : Action V Unit) := by
  refine .bind (checked _) fun b => .bind (checked _) fun c => ?_
  exact .update (hR.swap b 0 c 0)

theorem readOn (b : BlockId) (n i : Nat) (got : List V) :
    Respects R (Pointer.readOn b n i got : Action V (List V)) := by
  induction n generalizing i got with
  | zero => exact .pure _
  | succ n ih =>
    exact .bind (.orElseUndo (hR.read b i) (hR.dropAll _)) fun v => ih (i + 1) (v :: got)

theorem toList (p : Pointer) : Respects R (p.toList : Action V (List V)) :=
  .bind (checked _) fun b => hR.readOn b p.size 0 []

theorem fill (p : Pointer) (i : Nat) (vs : List V) : Respects R (p.fill i vs : Action V Unit) := by
  induction vs generalizing i with
  | nil => exact .pure ()
  | cons v vs ih => exact .bind (hR.setAt p i v) fun _ => ih (i + 1)

theorem allocateCell (v : V) : Respects R (Pointer.allocate v : Action V Pointer) := by
  refine .bind (hR.allocate 1) fun b => ?_
  exact .bind (.orElseUndo (hR.store b 0 v) (hR.dropPointer _)) fun _ => .pure _

theorem allocateCollection (filling : Filling V) :
    Respects R (Pointer.allocateCollection filling : Action V Pointer) := by
  refine .bind (hR.allocate filling.size) fun b => ?_
  exact .bind (.orElseUndo (hR.fill _ 0 filling.contents) (hR.dropPointer _)) fun _ => .pure _

end

end Congruence

end CountedCells

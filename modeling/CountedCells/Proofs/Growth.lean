import CountedCells.Proofs.Calls
import CountedCells.Proofs.Commands

/-!
# Growth: how far a command raises counts

A reference is taken by raising a count by one, and nothing else raises any. So a command raises no
count further than it takes references, and how many it takes at most can be told from its text and
from the handles (`ValueCommand.takes`). If a command is abandoned because a count cannot be raised,
then that count was near the highest before the command began (`Session.climbs_stepValue`).

`Climbs k s out` says this of one outcome. It is proved along the way in which operations are built,
with one rule for each construct, and asks nothing of the heap.
-/

namespace CountedCells

open Attempt

namespace Attempt

/-- States in which blocks have counts. -/
class Counting (σ : Type) where
  /-- the count of a block -/
  count : σ → BlockId → Nat

/-- Reasons to end early. -/
class Overflowing (ε : Type) where
  /-- the block whose count cannot be raised, if this is the reason -/
  overflowed? : ε → Option BlockId

variable {ε σ α β : Type} [Counting σ] [Overflowing ε]

/-- From the state on, no count was raised by more than `k`, and if one could not be raised any
more, it was that near to the highest. -/
structure Climbs (k : Nat) (s : σ) (out : Except ε α × σ) : Prop where
  /-- the counts -/
  counts : ∀ b, Counting.count out.2 b ≤ Counting.count s b + k
  /-- the one that overflows -/
  overflow : ∀ e b, out.1 = .error e → Overflowing.overflowed? e = some b →
    Config.countRange ≤ Counting.count s b + k

/-- No count is raised. -/
def Falls (f : σ → σ) : Prop := ∀ s b, Counting.count (f s) b ≤ Counting.count s b

namespace Climbs

variable {s : σ} {j k : Nat}

theorem mono {out : Except ε α × σ} (h : Climbs j s out) (hk : j ≤ k) : Climbs k s out where
  counts b := (h.counts b).trans (Nat.add_le_add_left hk _)
  overflow e b he hb := (h.overflow e b he hb).trans (Nat.add_le_add_left hk _)

/-- An operation that succeeds. -/
theorem of_ok {out : Except ε α × σ} {a : α} {s' : σ} (hrun : out = (.ok a, s'))
    (hs : ∀ b, Counting.count s' b ≤ Counting.count s b + k) : Climbs k s out where
  counts b := by
    rw [hrun]
    exact hs b
  overflow e b he _ := by
    rw [hrun] at he
    cases he

/-- An operation that fails without having done anything, and not because of a count. -/
theorem of_error {out : Except ε α × σ} {e : ε} (hrun : out = (.error e, s))
    (he : Overflowing.overflowed? e = none) : Climbs k s out where
  counts b := by
    rw [hrun]
    exact Nat.le_add_right _ _
  overflow e' b he' hb := by
    rw [hrun] at he'
    cases he'
    rw [he] at hb
    cases hb

protected theorem pure (a : α) : Climbs k s ((pure a : Attempt ε σ α) s) :=
  of_ok rfl fun _ => Nat.le_add_right _ _

protected theorem throw {e : ε} (he : Overflowing.overflowed? e = none) :
    Climbs k s ((throw e : Attempt ε σ α) s) :=
  of_error rfl he

protected theorem update {f : σ → σ} (hf : Falls f) :
    Climbs k s ((update f : Attempt ε σ Unit) s) :=
  of_ok rfl fun b => (hf s b).trans (Nat.le_add_right _ _)

protected theorem look (f : σ → α) : Climbs k s ((look f : Attempt ε σ α) s) :=
  of_ok rfl fun _ => Nat.le_add_right _ _

protected theorem change {f : σ → α × σ}
    (hf : ∀ b, Counting.count (f s).2 b ≤ Counting.count s b + k) :
    Climbs k s ((change f : Attempt ε σ α) s) :=
  of_ok rfl hf

protected theorem find {f : σ → Except ε α}
    (hf : ∀ e, f s = .error e → Overflowing.overflowed? e = none) : Climbs k s (find f s) := by
  rcases hrun : f s with e | a
  · exact of_error (congrArg (·, s) hrun) (hf e hrun)
  · exact of_ok (congrArg (·, s) hrun) fun _ => Nat.le_add_right _ _

/-- Two parts, where the second one goes on with what the first one gives. -/
theorem bind_of_eq {act : Attempt ε σ α} {f : α → Attempt ε σ β} (h : Climbs j s (act s))
    (hf : ∀ a s', act s = (.ok a, s') → Climbs k s' (f a s')) :
    Climbs (j + k) s ((act >>= f) s) := by
  rcases hrun : act s with ⟨e | a, s'⟩
  · rw [hrun] at h
    rw [bind_of_error hrun]
    refine ⟨fun b => ?_, fun e' b he hb => ?_⟩
    · exact (h.counts b).trans (Nat.add_le_add_left (Nat.le_add_right j k) _)
    · cases he
      exact (h.overflow e b rfl hb).trans (Nat.add_le_add_left (Nat.le_add_right j k) _)
  · have hrest := hf a s' hrun
    have hraised := h.counts
    rw [hrun] at hraised
    rw [bind_of_ok hrun]
    refine ⟨fun b => ?_, fun e b he hb => ?_⟩
    · have hfirst : Counting.count s' b ≤ Counting.count s b + j := hraised b
      have hsecond := hrest.counts b
      omega
    · have hfirst : Counting.count s' b ≤ Counting.count s b + j := hraised b
      have hsecond := hrest.overflow e b he hb
      omega

/-- Two parts, whatever the first one gives. -/
protected theorem bind {act : Attempt ε σ α} {f : α → Attempt ε σ β} (h : Climbs j s (act s))
    (hf : ∀ a s', Climbs k s' (f a s')) : Climbs (j + k) s ((act >>= f) s) :=
  h.bind_of_eq fun a s' _ => hf a s'

/-- The first part raises no count. -/
theorem free_bind {act : Attempt ε σ α} {f : α → Attempt ε σ β} (h : Climbs 0 s (act s))
    (hf : ∀ a s', Climbs k s' (f a s')) : Climbs k s ((act >>= f) s) :=
  (h.bind hf).mono (Nat.zero_add k).le

/-- The second part raises no count. -/
theorem bind_free {act : Attempt ε σ α} {f : α → Attempt ε σ β} (h : Climbs k s (act s))
    (hf : ∀ a s', Climbs 0 s' (f a s')) : Climbs k s ((act >>= f) s) :=
  h.bind hf

/-- The first part only finds something. -/
theorem find_bind {g : σ → Except ε α} {f : α → Attempt ε σ β}
    (hg : ∀ e, g s = .error e → Overflowing.overflowed? e = none)
    (hf : ∀ a, g s = .ok a → Climbs k s (f a s)) : Climbs k s ((find g >>= f) s) := by
  rcases hrun : g s with e | a
  · have hfind : find g s = (.error e, s) := by rw [find_apply, hrun]
    exact of_error (bind_of_error hfind) (hg e hrun)
  · have hfind : find g s = (.ok a, s) := by rw [find_apply, hrun]
    rw [bind_of_ok hfind]
    exact hf a hrun

protected theorem orElseUndo {act : Attempt ε σ α} {undo : σ → σ} (h : Climbs k s (act s))
    (hundo : Falls undo) : Climbs k s (act.orElseUndo undo s) := by
  rcases hrun : act s with ⟨e | a, s'⟩ <;> rw [hrun] at h <;> simp only [Attempt.orElseUndo, hrun]
  · exact ⟨fun b => (hundo s' b).trans (h.counts b), fun e' b he hb => by
      cases he
      exact h.overflow e b rfl hb⟩
  · exact h

protected theorem andFinally {act : Attempt ε σ α} {last : σ → σ} (h : Climbs k s (act s))
    (hlast : Falls last) : Climbs k s (act.andFinally last s) :=
  ⟨fun b => (hlast _ b).trans (h.counts b), h.overflow⟩

end Climbs
end Attempt

variable {V : Type}

instance Heap.instCounting : Counting (Heap V) := ⟨Heap.count⟩

instance Session.instCounting : Counting (Session V) := ⟨fun s => s.heap.count⟩

instance Fault.instOverflowing : Overflowing Fault where
  overflowed?
    | .overflow b => some b
    | _ => none

instance Failure.instOverflowing : Overflowing Failure where
  overflowed?
    | .fault f => Overflowing.overflowed? f
    | _ => none

namespace Registers

variable (r : Registers V)

theorem overflowed?_handleNamed {name : String} {e : Failure}
    (he : r.handleNamed name = .error e) : Overflowing.overflowed? e = none := by
  rw [handleNamed] at he
  cases hp : r.handles.lookup name <;> rw [hp] at he <;> cases he
  rfl

theorem overflowed?_variableNamed {name : String} {e : Failure}
    (he : r.variableNamed name = .error e) : Overflowing.overflowed? e = none := by
  rw [variableNamed] at he
  cases hv : r.values.lookup name <;> rw [hv] at he <;> cases he
  rfl

theorem overflowed?_rawNamed {name : String} {e : Failure}
    (he : r.rawNamed name = .error e) : Overflowing.overflowed? e = none := by
  rw [rawNamed] at he
  cases hu : r.raws.lookup name <;> rw [hu] at he <;> cases he
  rfl

end Registers

/-! ## Giving references back -/

namespace Heap

theorem count_mono {h g : Heap V} {b : BlockId} (hb : h.block? b = g.block? b) :
    h.count b = g.count b := by
  rw [count, count, hb]

theorem count_setCount_le {h : Heap V} {b : BlockId} {n : Nat} (hn : n ≤ h.count b) (c : BlockId) :
    (h.setCount b n).count c ≤ h.count c :=
  setCount_le_count (k := 0) hn c

variable [Host V]

theorem count_carryOut_le (t : Task V) (h : Heap V) (c : BlockId) :
    (t.carryOut h).2.count c ≤ h.count c := by
  cases t with
  | disown holder v => exact (count_mono rfl).le
  | drop r =>
    cases r with
    | block b n =>
      have hexpect : (h.expect b n).count = h.count := funext fun c => count_mono (by simp)
      simp only [Task.carryOut]
      split
      · exact (congrFun hexpect c).le
      · rename_i block hb
        split
        · exact (congrFun hexpect c).le
        · rw [count, block?_destroy]
          split
          · exact Nat.zero_le _
          · exact (congrFun hexpect c).le
        · rename_i k hk
          refine (count_setCount_le ?_ c).trans (congrFun hexpect c).le
          rw [Heap.count_eq hb, hk]
          exact Nat.le_succ _
    | payload p =>
      simp only [Task.carryOut]
      split
      · exact Nat.le_refl _
      · split <;> exact (count_mono rfl).le

/-- A cascade raises no count. -/
theorem falls_settle (ts : List (Task V)) : Falls (settle ts : Heap V → Heap V) := by
  intro h c
  show (h.settle ts).count c ≤ h.count c
  fun_induction settle ts h with
  | case1 h => exact Nat.le_refl _
  | case2 h t ts ih => exact ih.trans (count_carryOut_le t h c)

theorem falls_drop (v : V) : Falls (Heap.drop · v) := falls_settle _

theorem falls_dropAll (vs : List V) : Falls (Heap.dropAll · vs) := falls_settle _

theorem falls_dropPointer (p : Pointer) : Falls (Heap.dropPointer · p : Heap V → Heap V) :=
  falls_settle _

theorem falls_dropPointers (ps : List Pointer) :
    Falls (ps.foldl Heap.dropPointer : Heap V → Heap V) := by
  induction ps with
  | nil => exact fun _ _ => Nat.le_refl _
  | cons p ps ih => exact fun h b => (ih _ b).trans (falls_dropPointer p h b)

theorem count_release_le (h : Heap V) (b n : Nat) (c : BlockId) :
    (h.release b n).2.count c ≤ h.count c := by
  simp only [Heap.release]
  split
  · exact (count_mono (block?_expect h b n c)).le
  · exact falls_settle _ h c
  · exact falls_settle _ h c

theorem falls_giveBack (u : RawBlock) : Falls (u.giveBack : Heap V → Heap V) := by
  intro h c
  simp only [RawBlock.giveBack]
  induction u.owned with
  | zero => exact Nat.le_refl _
  | succ k ih => exact (count_release_le _ u.block u.size c).trans ih

/-! ## Cells -/

section

omit [Host V]

theorem climbs_raise (b : BlockId) (h : Heap V) : Climbs 1 h (Heap.raise b h) := by
  rcases Nat.lt_or_ge (h.count b + 1) Config.countRange with hroom | hfull
  · exact .of_ok (raise_of_lt hroom) fun c => setCount_le_count (Nat.le_refl _) c
  · rw [raise_of_crowded hfull]
    refine ⟨fun c => Nat.le_add_right _ _, fun e c he hc => ?_⟩
    cases he
    cases hc
    exact hfull

theorem climbs_retainOr {f : Fault} (hf : Overflowing.overflowed? f = none) (b : BlockId)
    (h : Heap V) : Climbs 1 h (Heap.retainOr f b h) := by
  rcases Nat.eq_zero_or_pos (h.count b) with hc | hc
  · rw [retainOr_of_zero hc]
    refine ⟨fun c => ?_, fun e c he hb => ?_⟩
    · exact (count_mono (block?_touch h b 0 c)).le.trans (Nat.le_add_right _ _)
    · cases he
      rw [hf] at hb
      cases hb
  · rw [retainOr_of_pos hc]
    exact climbs_raise b h

theorem climbs_retain (b : BlockId) (h : Heap V) : Climbs 1 h (Heap.retain b h) :=
  climbs_retainOr rfl b h

theorem climbs_copyRef (r : Ref) (h : Heap V) : Climbs 1 h (Heap.copyRef r h) := by
  cases r with
  | block b n => exact climbs_retainOr rfl b h
  | payload p => exact .of_ok rfl fun _ => Nat.le_add_right _ _

theorem climbs_allocate (n : Nat) (h : Heap V) : Climbs 1 h (Heap.allocate n h) := by
  rw [Heap.allocate]
  rcases h.refusal n with - | e
  · exact .of_ok rfl (h.count_addBlock_le n)
  · exact .of_error rfl rfl

theorem falls_swap (b : BlockId) (i : Nat) (c : BlockId) (j : Nat) :
    Falls (Heap.swap b i c j : Heap V → Heap V) := by
  intro h d
  show (Heap.swap b i c j h).count d ≤ h.count d
  rw [Heap.swap, count_setValue, count_setValue]
  exact (count_mono ((block?_touch _ c j d).trans (block?_touch h b i d))).le

end

/-- Copying a value takes as many references as it owns. -/
theorem climbs_copy (v : V) (h : Heap V) :
    Climbs (Host.ref v).toList.length h (Heap.copy v h) := by
  rw [Heap.copy]
  cases Host.ref v with
  | none => exact .pure ()
  | some r => exact climbs_copyRef r h

theorem climbs_acquire (holder : Holder) (v : V) (h : Heap V) :
    Climbs (Host.ref v).toList.length h (Heap.acquire holder v h) :=
  .bind_free (climbs_copy v h) fun _ _ => .update fun _ _ => (count_mono rfl).le

theorem falls_replace (b : BlockId) (i : Nat) (v : V) : Falls (Heap.replace b i v) := by
  intro h c
  show (Heap.replace b i v h).count c ≤ h.count c
  rw [Heap.replace]
  split
  · rw [count_setValue]
    exact (count_mono (block?_touch h b i c)).le
  · exact (falls_settle _ _ c).trans (count_setValue h b i _ c).le

theorem climbs_store (b : BlockId) (i : Nat) (v : V) (h : Heap V) :
    Climbs (Host.ref v).toList.length h (Heap.store b i v h) :=
  .bind_free (climbs_acquire .cell v h) fun _ _ => .update (falls_replace b i v)

theorem climbs_read (b : BlockId) (i : Nat) (h : Heap V) : Climbs 1 h (Heap.read b i h) := by
  refine .free_bind (.update fun h c => (count_mono (block?_touch h b i c)).le) fun _ h' => ?_
  refine .free_bind (.look _) fun o h'' => ?_
  cases o with
  | none => exact .pure _
  | some v =>
    refine .bind_free ?_ fun _ _ => .pure _
    exact (climbs_acquire .caller v h'').mono Option.length_toList_le

end Heap

/-! ## Pointers -/

namespace Pointer

theorem climbs_checked_bind {α β : Type} {k : Nat} {x : Except HeapError α} {f : α → Action V β}
    (hf : ∀ a h, Climbs k h (f a h)) (h : Heap V) : Climbs k h ((checked x >>= f) h) := by
  cases x with
  | error e => exact .of_error rfl rfl
  | ok a => exact hf a h

theorem climbs_bind (p : Pointer) (h : Heap V) : Climbs 1 h (p.bind h) := by
  cases p with
  | null => exact .pure _
  | cells b n => exact .bind_free (Heap.climbs_retain b h) fun _ _ => .pure _

theorem climbs_copy (p : Pointer) (h : Heap V) : Climbs 1 h (p.copy h) := by
  cases p with
  | null => exact .pure _
  | cells b n => exact .bind_free (Heap.climbs_copyRef _ h) fun _ _ => .pure _

theorem climbs_rebuild (a : Address) (n : Nat) (h : Heap V) : Climbs 1 h (rebuild a n h) := by
  refine .free_bind (.update fun h c => ?_) fun _ h' => ?_
  · show (if h.stable then _ else h : Heap V).count c ≤ h.count c
    split <;> exact Nat.le_refl _
  · cases a with
    | sentinel => exact .pure _
    | zero => exact .pure _
    | block b =>
      refine .bind_free (.free_bind (.update fun h c => ?_) fun _ => Heap.climbs_raise b) fun _ _ =>
        .bind_free (.update fun _ _ => Nat.le_refl _) fun _ _ => .pure _
      exact (Heap.count_mono (Heap.block?_touch h b 0 c)).le

variable [Host V]

theorem climbs_get (p : Pointer) (h : Heap V) : Climbs 1 h (p.get h) :=
  climbs_checked_bind (fun b => Heap.climbs_read b 0) h

theorem climbs_getAt (p : Pointer) (i : Nat) (h : Heap V) : Climbs 1 h (p.getAt i h) :=
  climbs_checked_bind (fun b => Heap.climbs_read b i) h

theorem climbs_setAt (p : Pointer) (i : Nat) (v : V) (h : Heap V) :
    Climbs (Host.ref v).toList.length h (p.setAt i v h) :=
  climbs_checked_bind (fun b => Heap.climbs_store b i v) h

/-- A write through a null pointer makes a block first, with a count of one. -/
theorem climbs_set (p : Pointer) (v : V) (h : Heap V) :
    Climbs (ε := Fault) 2 h ((p.set v h).1.2, (p.set v h).2) := by
  have hwrite (q : Pointer) (h' : Heap V) : Climbs 1 h' ((do
      let b ← checked q.scalar?
      Heap.store b 0 v : Action V Unit) h') :=
    climbs_checked_bind (fun b h => (Heap.climbs_store b 0 v h).mono Option.length_toList_le) h'
  have hupgrade : Climbs 1 h (p.upgrade h) := by
    cases p with
    | cells b n => exact .pure _
    | null =>
      exact .bind_free (Heap.climbs_allocate 1 h) fun _ _ =>
        .bind_free (.update fun _ _ => Nat.le_refl _) fun _ _ => .pure _
  have hboth := hupgrade.bind (f := fun q => do
    let b ← checked q.scalar?
    Heap.store b 0 v) hwrite
  rw [set]
  rcases hrun : p.upgrade h with ⟨f | q, h'⟩
  · rwa [bind_of_error hrun] at hboth
  · rwa [bind_of_ok hrun] at hboth

omit [Host V] in
theorem climbs_swap (p q : Pointer) (h : Heap V) : Climbs 0 h (p.swap q h) :=
  climbs_checked_bind (fun b => climbs_checked_bind fun c _ => .update (Heap.falls_swap b 0 c 0)) h

theorem climbs_readOn (b : BlockId) (n i : Nat) (got : List V) (h : Heap V) :
    Climbs n h (readOn b n i got h) := by
  induction n generalizing i got h with
  | zero => exact .pure _
  | succ n ih =>
    have hread := (Heap.climbs_read b i h).orElseUndo (Heap.falls_dropAll got.reverse)
    exact (hread.bind fun v => ih (i + 1) (v :: got)).mono (Nat.add_comm 1 n).le

theorem climbs_toList (p : Pointer) (h : Heap V) : Climbs p.size h (p.toList h) :=
  climbs_checked_bind (fun b => climbs_readOn b p.size 0 []) h

theorem climbs_fill (p : Pointer) (i : Nat) (vs : List V) (h : Heap V) :
    Climbs (vs.filterMap Host.ref).length h (p.fill i vs h) := by
  induction vs generalizing i h with
  | nil => exact .pure _
  | cons v vs ih =>
    refine ((climbs_setAt p i v h).bind fun _ => ih (i + 1)).mono (le_of_eq ?_)
    rw [List.filterMap_cons]
    cases Host.ref v with
    | none => exact Nat.zero_add _
    | some r => exact Nat.add_comm 1 _

theorem climbs_allocate (v : V) (h : Heap V) : Climbs 2 h (allocate v h) := by
  have hstore (b : BlockId) (h' : Heap V) :
      Climbs 1 h' ((Heap.store b 0 v).orElseUndo (·.dropPointer (cells b 1)) h') :=
    ((Heap.climbs_store b 0 v h').mono Option.length_toList_le).orElseUndo
      (Heap.falls_dropPointer _)
  exact (Heap.climbs_allocate 1 h).bind fun b h' => .bind_free (hstore b h') fun _ _ => .pure _

theorem climbs_allocateCollection (filling : Filling V) (h : Heap V) :
    Climbs (1 + (filling.contents.filterMap Host.ref).length) h
      (allocateCollection filling h) :=
  (Heap.climbs_allocate _ h).bind fun _ h' =>
    .bind_free (.orElseUndo (climbs_fill _ 0 _ h') (Heap.falls_dropPointer _)) fun _ _ => .pure _

end Pointer

/-! ## Expressions -/

theorem climbs_ofAction {α : Type} {act : Action V α} {k : Nat} {h : Heap V}
    (hact : Climbs k h (act h)) : Climbs k h (Evaluation.ofAction act h) where
  counts := hact.counts
  overflow e b he hb := by
    have he' : (act h).1.mapError Failure.fault = .error e := he
    rcases hrun : (act h).1 with f | a <;> rw [hrun] at he'
    · cases he'
      exact hact.overflow f b hrun hb
    · cases he'

namespace Term

mutual

/-- How many references the value of a term takes at most: one for each copy of a handle or a
variable. -/
def takes : Term → Nat
  | handle _ | var _ => 1
  | list ts | tuple ts => takesAll ts
  | record _ fs => takesFields fs
  | dict es => takesEntries es
  | present t => t.takes
  | unit | bool _ | char _ | int _ | float _ | text _ | bytes _ | absent | null => 0

/-- How many the values of terms take. -/
def takesAll : List Term → Nat
  | [] => 0
  | t :: ts => t.takes + takesAll ts

/-- How many the values of fields take. -/
def takesFields : List (String × Term) → Nat
  | [] => 0
  | (_, t) :: fs => t.takes + takesFields fs

/-- How many keys and values take. -/
def takesEntries : List (Term × Term) → Nat
  | [] => 0
  | (kt, t) :: es => kt.takes + (t.takes + takesEntries es)

end

theorem climbs_share {d : Datum} (hd : d.kind.isShared = true) (parts : List Value) {k : Nat}
    (h : Heap Value) :
    Climbs k h ((Attempt.change (Value.share d hd parts) : Evaluation Value Value) h) :=
  .change fun _ => Nat.le_add_right _ _

theorem climbs_registered {α : Type} {k : Nat} {x : Except Failure α} {h : Heap Value}
    (hx : ∀ e, x = .error e → Overflowing.overflowed? e = none) :
    Climbs k h ((ofExcept x : Evaluation Value α) h) := by
  cases x with
  | error e => exact .throw (hx e rfl)
  | ok a => exact .pure a

mutual

theorem climbs_eval (r : Registers Value) (t : Term) (h : Heap Value) :
    Climbs t.takes h (t.eval r h) := by
  match t with
  | unit | bool _ | char _ | int _ | float _ | null =>
    rw [eval]
    exact .pure _
  | text _ | bytes _ | absent =>
    rw [eval]
    exact climbs_share rfl _ h
  | list ts =>
    rw [eval, takes]
    exact .bind_free (climbs_evalItems r [] ts h) fun vs => climbs_share rfl vs
  | tuple ts =>
    rw [eval, takes]
    exact .bind_free (climbs_evalItems r [] ts h) fun vs => climbs_share rfl vs
  | record name fs =>
    rw [eval, takes]
    exact .bind_free (climbs_evalFields r _ fs h) fun _ => climbs_share rfl _
  | dict es =>
    rw [eval, takes]
    exact .bind_free (climbs_evalEntries r [] es h) fun _ => climbs_share rfl _
  | present t =>
    rw [eval, takes]
    exact .bind_free (climbs_eval r t h) fun _ => climbs_share rfl _
  | handle name =>
    rw [eval, takes]
    refine .free_bind (climbs_registered fun e he => ?_) fun p h' => ?_
    · exact r.overflowed?_handleNamed he
    · exact .bind_free (climbs_ofAction (p.climbs_copy h')) fun _ _ => .pure _
  | var name =>
    rw [eval, takes]
    refine .free_bind (climbs_registered fun e he => ?_) fun v h' => ?_
    · exact r.overflowed?_variableNamed he
    · refine .bind_free (climbs_ofAction ?_) fun _ _ => .pure _
      exact (Heap.climbs_copy v h').mono Option.length_toList_le

theorem climbs_evalItems (r : Registers Value) (got : List Value) (ts : List Term)
    (h : Heap Value) : Climbs (takesAll ts) h (evalItems r got ts h) := by
  match ts with
  | [] =>
    rw [evalItems]
    exact .pure _
  | t :: ts =>
    rw [evalItems, takesAll]
    refine .bind (.orElseUndo (climbs_eval r t h) (Heap.falls_dropAll _)) fun v => ?_
    exact climbs_evalItems r (v :: got) ts

theorem climbs_evalFields (r : Registers Value) (got : Record Value) (fs : List (String × Term))
    (h : Heap Value) : Climbs (takesFields fs) h (evalFields r got fs h) := by
  match fs with
  | [] =>
    rw [evalFields]
    exact .pure _
  | (name, t) :: fs =>
    rw [evalFields, takesFields]
    refine .bind (.orElseUndo (climbs_eval r t h) (Heap.falls_dropAll _)) fun v h' => ?_
    exact .free_bind (.update (Heap.falls_dropAll _)) fun _ => climbs_evalFields r _ fs

theorem climbs_evalEntries (r : Registers Value) (got : DictParts) (es : List (Term × Term))
    (h : Heap Value) : Climbs (takesEntries es) h (evalEntries r got es h) := by
  match es with
  | [] =>
    rw [evalEntries]
    exact .pure _
  | (kt, t) :: es =>
    rw [evalEntries, takesEntries]
    refine .bind (.orElseUndo (climbs_eval r kt h) (Heap.falls_dropAll _)) fun kv h' => ?_
    refine .bind (.orElseUndo (climbs_eval r t h') fun g b => ?_) fun v h'' => ?_
    · exact (Heap.falls_dropAll _ _ b).trans (Heap.falls_drop kv g b)
    · cases kv.datum.key? with
      | none =>
        refine .free_bind (.update fun g b => ?_) fun _ _ => .throw rfl
        exact (Heap.falls_dropAll _ _ b).trans
          ((Heap.falls_drop kv _ b).trans (Heap.falls_drop v g b))
      | some k =>
        exact .free_bind (.update (Heap.falls_dropAll _)) fun _ => climbs_evalEntries r _ es

end

end Term

/-! ## Structures of pointers -/

namespace Value

theorem climbs_follow (limit hops : Nat) (v : Value) (h : Heap Value) :
    Climbs limit h (v.follow limit hops h) := by
  induction limit generalizing hops v h with
  | zero => exact .pure _
  | succ limit ih =>
    rw [follow]
    cases v.datum with
    | pointer p =>
      have hread := (p.climbs_get h).orElseUndo (Heap.falls_drop v)
      refine (hread.bind fun w h' => ?_).mono (Nat.add_comm 1 limit).le
      exact .free_bind (.update (Heap.falls_drop v)) fun _ => ih (hops + 1) w
    | _ => exact .pure _

theorem climbs_chainOn (n : Nat) (p : Pointer) (h : Heap Value) :
    Climbs (2 * n) h (chainOn n p h) := by
  induction n generalizing p h with
  | zero => exact .pure _
  | succ n ih =>
    have hmade := (Pointer.climbs_allocate (Value.pointer p) h).orElseUndo
      (Heap.falls_dropPointer p)
    refine (hmade.bind fun q h' => ?_).mono (by omega : 2 + 2 * n ≤ 2 * (n + 1))
    exact .free_bind (.update (Heap.falls_dropPointer p)) fun _ => ih q

theorem climbs_chain (n : Nat) (v : Value) (h : Heap Value) :
    Climbs (2 + 2 * (n - 1)) h (v.chain n h) :=
  (Pointer.climbs_allocate v h).bind fun p => climbs_chainOn (n - 1) p

end Value

/-! ## Parts of commands -/

namespace Act

variable {s : Session V} {α : Type} {k : Nat}

theorem climbs_run {act : Evaluation V α} (hact : Climbs k s.heap (act s.heap)) :
    Climbs k s (run act s) :=
  ⟨hact.counts, hact.overflow⟩

theorem climbs_perform {act : Action V α} (hact : Climbs k s.heap (act s.heap)) :
    Climbs k s (perform act s) :=
  climbs_run (climbs_ofAction hact)

theorem falls_mapHeap {f : Heap V → Heap V} (hf : Falls f) :
    Falls (·.mapHeap f : Session V → Session V) :=
  fun s b => hf s.heap b

theorem climbs_updateHeap {f : Heap V → Heap V} (hf : Falls f) (s : Session V) :
    Climbs k s (updateHeap f s) :=
  .update (falls_mapHeap hf)

theorem climbs_updateRegisters (f : Registers V → Registers V) (s : Session V) :
    Climbs k s (updateRegisters f s) :=
  .update fun _ _ => Nat.le_refl _

theorem climbs_handle_bind {name : String} {f : Pointer → Act V α}
    (hf : ∀ p, s.handles.lookup name = some p → Climbs k s (f p s)) :
    Climbs k s ((handle name >>= f) s) := by
  refine .find_bind (fun _ => s.overflowed?_handleNamed) fun p hp => hf p ?_
  rw [Registers.handleNamed] at hp
  cases hlook : s.handles.lookup name <;> rw [hlook] at hp <;> cases hp
  rfl

theorem climbs_variable_bind {name : String} {f : V → Act V α} (hf : ∀ v, Climbs k s (f v s)) :
    Climbs k s ((variableValue name >>= f) s) :=
  .find_bind (fun _ => s.overflowed?_variableNamed) fun v _ => hf v

theorem climbs_raw_bind {name : String} {f : RawBlock → Act V α} (hf : ∀ u, Climbs k s (f u s)) :
    Climbs k s ((rawBlock name >>= f) s) :=
  .find_bind (fun _ => s.overflowed?_rawNamed) fun u _ => hf u

theorem climbs_rawWithCell (name : String) (i : Nat) (s : Session V) :
    Climbs 0 s (rawWithCell name i s) := by
  refine climbs_raw_bind fun u => ?_
  split
  · exact .pure _
  · exact .throw rfl

theorem climbs_takeVariable (name : String) (s : Session V) :
    Climbs 0 s (takeVariable name s) :=
  climbs_variable_bind fun _ =>
    .free_bind (climbs_updateRegisters _ s) fun _ _ => .pure _

theorem climbs_originAddress (o : Origin) (n : Nat) (s : Session V) :
    Climbs 0 s (originAddress o n s) := by
  rw [Origin.originAddress_apply]
  refine .find (f := fun s : Session V => o.address? n s.toRegisters) fun e he => ?_
  cases o with
  | handle name =>
    simp only [Origin.address?] at he
    rcases hp : s.handleNamed name with f | (- | ⟨b, m⟩) <;> simp only [hp] at he
    · cases he
      exact s.overflowed?_handleNamed hp
    · cases he
    · split at he <;> cases he
      rfl
  | raw name =>
    simp only [Origin.address?] at he
    rcases hu : s.rawNamed name with f | u <;> simp only [hu] at he
    · cases he
      exact s.overflowed?_rawNamed hu
    · split at he <;> cases he
      rfl
  | zero => cases he
  | sentinel => cases he

variable [Host V]

theorem climbs_nameHandle (name : String) (p : Pointer) (s : Session V) :
    Climbs 0 s (nameHandle name p s) := by
  refine .free_bind (.look _) fun old s' => .free_bind (climbs_updateRegisters _ s') fun _ s'' => ?_
  cases old with
  | none => exact .pure _
  | some q => exact climbs_updateHeap (Heap.falls_dropPointer q) s''

theorem climbs_nameVariable (name : String) (v : V) (s : Session V) :
    Climbs 0 s (nameVariable name v s) := by
  refine .free_bind (.look _) fun old s' => .free_bind (climbs_updateRegisters _ s') fun _ s'' => ?_
  cases old with
  | none => exact .pure _
  | some w => exact climbs_updateHeap (Heap.falls_drop w) s''

theorem climbs_nameRaw (name : String) (u : RawBlock) (s : Session V) :
    Climbs 0 s (nameRaw name u s) := by
  refine .free_bind (.look _) fun old s' => .free_bind (climbs_updateRegisters _ s') fun _ s'' => ?_
  cases old with
  | none => exact .pure _
  | some w => exact climbs_updateHeap (Heap.falls_giveBack w) s''

theorem climbs_made (name : String) (p : Pointer) (s : Session V) : Climbs 0 s (made name p s) :=
  .free_bind (climbs_nameHandle name p s) fun _ _ => .free_bind (.look _) fun _ _ => .pure _

theorem climbs_answerValue (keep : Option String) (v : V) (s : Session V) :
    Climbs 0 s (answerValue keep v s) := by
  refine .free_bind ?_ fun _ _ => .pure _
  cases keep with
  | none => exact climbs_updateHeap (Heap.falls_drop v) s
  | some name => exact climbs_nameVariable name v s

theorem climbs_collect (got : List Pointer) (names : List String) (s : Session V) :
    Climbs names.length s (collect got names s) := by
  induction names generalizing got s with
  | nil => exact .pure _
  | cons name names ih =>
    have hcopied : Climbs 1 s ((do perform (← handle name).copy : Act V Pointer) s) :=
      climbs_handle_bind fun p _ => climbs_perform (p.climbs_copy s.heap)
    have hundone := hcopied.orElseUndo (falls_mapHeap (Heap.falls_dropPointers got))
    refine (hundone.bind fun p s' => ?_).mono (Nat.add_comm 1 _).le
    split
    · refine .free_bind (climbs_updateHeap (Heap.falls_dropPointer p) s') fun _ s'' => ?_
      exact .bind_free (ih got s'') fun _ _ => .pure _
    · exact .bind_free (ih (got ++ [p]) s') fun _ _ => .pure _

theorem climbs_setThrough (name : String) (p : Pointer) (v : V) (s : Session V) :
    Climbs 2 s (setThrough name p v s) := by
  have hset := p.climbs_set v s.heap
  rcases hrun : p.set v s.heap with ⟨⟨q, f | u⟩, h⟩ <;> rw [hrun] at hset <;>
    rw [setThrough_apply hrun]
  · refine ⟨hset.counts, fun e b he hb => ?_⟩
    cases he
    exact hset.overflow f b rfl hb
  · exact .of_ok rfl hset.counts

theorem climbs_releaseRaw (name : String) (u : RawBlock) (s : Session V) :
    Climbs 0 s (releaseRaw name u s) := by
  refine .free_bind (climbs_run (.change (Heap.count_release_le _ _ _))) fun r s' => ?_
  split
  · exact .free_bind (climbs_updateRegisters _ s') fun _ _ => .pure _
  · exact .pure _

/-! ## Values for the time of a command -/

section

variable {E : Type} [Expression E V] {cost : E → Nat}

omit [Expression E V] in
theorem length_evalAll [Expression E V] {r : Registers V} {got vs : List V} {es : List E}
    {h g : Heap V} (hrun : evalAll r got es h = (.ok vs, g)) :
    vs.length = got.length + es.length := by
  induction es generalizing got h with
  | nil =>
    cases hrun
    exact List.length_reverse
  | cons e es ih =>
    obtain ⟨v, h', -, hrest⟩ := bind_eq_ok hrun
    rw [ih hrest, List.length_cons, List.length_cons, Nat.add_assoc, Nat.add_comm 1]

variable (hcost : ∀ (r : Registers V) (e : E) (h : Heap V),
  Climbs (cost e) h (Expression.eval r e h))

include hcost

theorem climbs_value (e : E) (s : Session V) : Climbs (cost e) s (value e s) :=
  .free_bind (.look _) fun r s' => climbs_run (hcost r e s'.heap)

theorem climbs_evalAll (r : Registers V) (got : List V) (es : List E) (h : Heap V) :
    Climbs (es.map cost).sum h (evalAll r got es h) := by
  induction es generalizing got h with
  | nil => exact .pure _
  | cons e es ih =>
    rw [List.map_cons, List.sum_cons]
    exact .bind (.orElseUndo (hcost r e h) (Heap.falls_dropAll _)) fun v => ih (v :: got)

theorem climbs_withValue (e : E) {body : V → Act V α} (hbody : ∀ v s, Climbs k s (body v s))
    (s : Session V) : Climbs (cost e + k) s (withValue e body s) :=
  (climbs_value hcost e s).bind fun v s' =>
    .andFinally (hbody v s') (falls_mapHeap (Heap.falls_drop v))

theorem climbs_withValues (es : List E) {body : List V → Act V α}
    (hbody : ∀ vs s, vs.length = es.length → Climbs k s (body vs s)) (s : Session V) :
    Climbs ((es.map cost).sum + k) s (withValues es body s) := by
  have hvalues : Climbs (es.map cost).sum s (values es s) :=
    .free_bind (.look _) fun r s' => climbs_run (climbs_evalAll hcost r [] es s'.heap)
  refine hvalues.bind_of_eq fun vs s' hrun => ?_
  refine .andFinally (hbody vs s' ?_) (falls_mapHeap (Heap.falls_dropAll vs))
  have hlength := length_evalAll (V := V) (E := E) (congrArg
    (fun out : Except Failure (List V) × Session V => (out.1, out.2.heap)) hrun)
  rwa [List.length_nil, Nat.zero_add] at hlength

end
end Act

/-! ## Commands -/

section

variable {E : Type}

/-- How many references the command takes at most, where evaluating an expression takes at most
`cost`. Reading all cells of a handle takes one for each. -/
def Command.takes (cost : E → Nat) (r : Registers V) : Command E → Nat
  | .allocate _ e | .set _ e => cost e + 2
  | .allocateValues _ es => (es.map cost).sum + (1 + es.length)
  | .setAt _ _ e | .rawStore _ _ e => cost e + 1
  | .define _ e => cost e
  | .evaluate es => (es.map cost).sum
  | .toList h => (r.handles.lookup h).elim 0 Pointer.size
  | .handleSet hs => hs.length
  | .allocateCount _ _ | .bind _ _ | .copy _ _ | .rebuild _ _ _ | .get _ _ | .getAt _ _ _
  | .acquire _ _ | .rawAllocate _ _ | .rawOf _ _ | .rawRetain _ | .rawRead _ _ _ => 1
  | .null _ | .drop _ | .swap _ _ | .inspect _ | .compare _ _ | .disown _ | .forget _
  | .rawRelease _ | .rawSwap _ _ _ _ | .rawCount _ _ | .rawExpire _ | .rawRestore _ _ | .stats
  | .configure _ | .config | .stability => 0

variable [Host V] [Expression E V] {cost : E → Nat}

/-- A command that sets no count by hand raises none by more than the references it takes. -/
theorem Act.climbs_ofCommand
    (hcost : ∀ (r : Registers V) (e : E) (h : Heap V), Climbs (cost e) h (Expression.eval r e h))
    {c : Command E} (hc : c.Steady) (s : Session V) :
    Climbs (c.takes cost s.toRegisters) s (ofCommand c s) := by
  cases c with
  | null name => exact climbs_made name .null s
  | allocate name e =>
    exact climbs_withValue hcost e (fun v s' => .bind_free
      (climbs_perform (Pointer.climbs_allocate v s'.heap)) fun p => climbs_made name p) s
  | allocateCount name n =>
    refine .bind_free (climbs_perform ?_) fun p => climbs_made name p
    have hmade := Pointer.climbs_allocateCollection (V := V) (.count n) s.heap
    -- the default value owns nothing
    have hnone : (Filling.count n : Filling V).contents.filterMap Host.ref = [] := by
      refine List.filterMap_eq_nil_iff.mpr fun v hv => ?_
      rw [List.eq_of_mem_replicate hv, Host.ref_default]
    rwa [hnone] at hmade
  | allocateValues name es =>
    refine climbs_withValues hcost es (fun vs s' hlength => ?_) s
    refine .bind_free (climbs_perform ?_) fun p => climbs_made name p
    refine (Pointer.climbs_allocateCollection (.values vs) s'.heap).mono ?_
    rw [← hlength]
    exact Nat.add_le_add_left (List.length_filterMap_le _ _) 1
  | bind name source =>
    exact climbs_handle_bind fun p _ =>
      .bind_free (climbs_perform (p.climbs_bind s.heap)) fun q => climbs_made name q
  | copy name source =>
    exact climbs_handle_bind fun p _ =>
      .bind_free (climbs_perform (p.climbs_copy s.heap)) fun q => climbs_made name q
  | rebuild name o n =>
    exact .free_bind (climbs_originAddress o n s) fun a s' =>
      .bind_free (climbs_perform (Pointer.climbs_rebuild a n s'.heap)) fun q => climbs_made name q
  | drop name =>
    exact climbs_handle_bind fun p _ => .free_bind (climbs_updateRegisters _ s) fun _ s' =>
      .free_bind (climbs_updateHeap (Heap.falls_dropPointer p) s') fun _ _ => .pure _
  | get name keep =>
    exact climbs_handle_bind fun p _ =>
      .bind_free (climbs_perform (p.climbs_get s.heap)) fun v => climbs_answerValue keep v
  | set name e =>
    exact climbs_handle_bind fun p _ => .bind_free
      (climbs_withValue hcost e (fun v s' => climbs_setThrough name p v s') s) fun _ _ => .pure _
  | getAt name i keep =>
    exact climbs_handle_bind fun p _ =>
      .bind_free (climbs_perform (p.climbs_getAt i s.heap)) fun v => climbs_answerValue keep v
  | setAt name i e =>
    refine climbs_handle_bind fun p _ => .bind_free (climbs_withValue hcost e (fun v s' => ?_) s)
      fun _ _ => .pure _
    exact (climbs_perform (p.climbs_setAt i v s'.heap)).mono Option.length_toList_le
  | swap a b =>
    refine climbs_handle_bind fun p _ => climbs_handle_bind fun q _ =>
      .bind_free (climbs_perform ?_) fun _ _ => .pure _
    exact Pointer.climbs_swap p q s.heap
  | toList name =>
    refine climbs_handle_bind fun p hp => ?_
    rw [Command.takes, hp, Option.elim_some]
    exact .bind_free (climbs_perform (p.climbs_toList s.heap)) fun vs s' =>
      .free_bind (climbs_updateHeap (Heap.falls_dropAll vs) s') fun _ _ => .pure _
  | inspect name =>
    exact climbs_handle_bind fun p _ => .free_bind (.look _) fun _ _ => .pure _
  | compare a b => exact climbs_handle_bind fun p _ => climbs_handle_bind fun q _ => .pure _
  | handleSet names =>
    exact .bind_free (climbs_collect [] names s) fun x s' =>
      .free_bind (climbs_updateHeap (Heap.falls_dropPointers x.2) s') fun _ _ => .pure _
  | define name e =>
    exact .bind_free (climbs_value hcost e s) fun v s' =>
      .free_bind (climbs_nameVariable name v s') fun _ _ => .pure _
  | acquire name keep =>
    refine climbs_variable_bind fun v => .bind_free (climbs_perform ?_) fun _ =>
      climbs_answerValue keep v
    exact (Heap.climbs_acquire .caller v s.heap).mono Option.length_toList_le
  | disown name =>
    exact .free_bind (climbs_takeVariable name s) fun v s' =>
      .free_bind (climbs_updateHeap (Heap.falls_settle _) s') fun _ _ => .pure _
  | forget name =>
    exact .free_bind (climbs_takeVariable name s) fun v s' =>
      .free_bind (climbs_updateHeap (Heap.falls_drop v) s') fun _ _ => .pure _
  | evaluate es => exact climbs_withValues (k := 0) hcost es (fun vs _ _ => .pure _) s
  | rawAllocate name n =>
    exact .bind_free (climbs_perform (Heap.climbs_allocate n s.heap)) fun b s' =>
      .free_bind (climbs_nameRaw name _ s') fun _ _ => .pure _
  | rawOf source name =>
    refine climbs_handle_bind fun p _ => ?_
    cases p with
    | null => exact .throw rfl
    | cells b n =>
      exact .bind_free (climbs_perform (Heap.climbs_retain b s.heap)) fun _ s' =>
        .free_bind (climbs_nameRaw name _ s') fun _ _ => .pure _
  | rawRetain name =>
    exact climbs_raw_bind fun u => .bind_free
      (climbs_perform (Heap.climbs_retain u.block s.heap)) fun _ s' =>
        .free_bind (climbs_updateRegisters _ s') fun _ _ => .pure _
  | rawRelease name =>
    exact climbs_raw_bind fun u => .free_bind (climbs_releaseRaw name u s) fun _ _ => .pure _
  | rawStore name i e =>
    refine .free_bind (climbs_rawWithCell name i s) fun u s' => .bind_free
      (climbs_withValue hcost e (fun v s'' => ?_) s') fun _ _ => .pure _
    exact (climbs_perform (Heap.climbs_store u.block i v s''.heap)).mono Option.length_toList_le
  | rawRead name i keep =>
    exact .free_bind (climbs_rawWithCell name i s) fun u s' => .bind_free
      (climbs_perform (Heap.climbs_read u.block i s'.heap)) fun v => climbs_answerValue keep v
  | rawSwap a i b j =>
    refine .free_bind (climbs_rawWithCell a i s) fun u s' =>
      .free_bind (climbs_rawWithCell b j s') fun w s'' =>
        .free_bind (climbs_updateHeap ?_ s'') fun _ _ => .pure _
    exact Heap.falls_swap u.block i w.block j
  | rawCount name i =>
    exact .free_bind (climbs_rawWithCell name i s) fun u s' =>
      .free_bind (.look _) fun _ _ => .pure _
  | rawExpire name => exact hc.elim
  | rawRestore name n => exact hc.elim
  | configure config =>
    have hinstall : Falls ({ · with config } : Heap V → Heap V) := fun _ _ => Nat.le_refl _
    exact .free_bind (climbs_updateHeap hinstall s) fun _ _ => .pure _
  | stats | config | stability => exact .free_bind (.look _) fun _ _ => .pure _

end

/-- How many references the command takes at most. -/
def ValueCommand.takes (r : Registers Value) : ValueCommand → Nat
  | .common c => c.takes Term.takes r
  | .equals _ t => t.takes
  | .load _ _ => 2
  | .chain _ n t => t.takes + (2 + 2 * (n - 1))
  | .walk _ limit => 1 + limit
  | .sharers _ | .samePayload _ _ => 0

/-- A command on values that sets no count by hand raises none by more than the references it takes;
and if it is abandoned because a count cannot be raised, that count was as near to the highest. -/
theorem Session.climbs_stepValue {c : ValueCommand} (hc : c.Steady) (s : Session Value) :
    Climbs (c.takes s.toRegisters) s (s.stepValue c) := by
  show Climbs _ s (Act.ofValueCommand c s)
  cases c with
  | common c =>
    exact .bind_free (Act.climbs_ofCommand Term.climbs_eval hc s) fun _ _ => .pure _
  | equals name t =>
    refine Act.climbs_handle_bind fun p _ =>
      Act.climbs_withValue (k := 0) Term.climbs_eval t (fun v s' => ?_) s
    cases v.equalsPointer p with
    | error e => exact .of_error rfl rfl
    | ok b => exact .pure _
  | load name source =>
    refine Act.climbs_handle_bind fun p _ =>
      (Act.climbs_perform (p.climbs_get s.heap)).bind (k := 1) fun v s' => ?_
    refine .bind_free (.andFinally ?_ (Act.falls_mapHeap (Heap.falls_drop v))) fun q s'' =>
      .bind_free (Act.climbs_made name q s'') fun _ _ => .pure _
    cases v.toPointer? with
    | error e => exact .of_error rfl rfl
    | ok q => exact Act.climbs_perform (q.climbs_copy s'.heap)
  | chain name n t =>
    refine .bind_free (Act.climbs_withValue Term.climbs_eval t (fun v s' => ?_) s) fun p s' =>
      .bind_free (Act.climbs_made name p s') fun _ _ => .pure _
    exact Act.climbs_perform (Value.climbs_chain n v s'.heap)
  | walk name limit =>
    refine Act.climbs_handle_bind fun p _ =>
      (Act.climbs_perform (p.climbs_get s.heap)).bind fun v s' => ?_
    refine .bind_free (Act.climbs_perform (Value.climbs_follow limit 0 v s'.heap)) fun x s'' => ?_
    exact .free_bind (Act.climbs_updateHeap (Heap.falls_drop x.2) s'') fun _ _ => .pure _
  | sharers x => exact Act.climbs_variable_bind fun v => .free_bind (.look _) fun _ _ => .pure _
  | samePayload x y =>
    exact Act.climbs_variable_bind fun v => Act.climbs_variable_bind fun w => .pure _

end CountedCells

import CountedCells.Proofs.Sound
import CountedCells.Session.Act

/-!
# Giving back: what cascades are made of

References are given back by three kinds of moves: a value is put down, a task is carried out, or
a reference to a block without a count lapses. Whatever drops owners is made of these (`Yields`).
None of them writes to a cell or makes a block, so the blocks that are left hold what they held
before (`Yields.contents`), and a block goes away only with the last reference to it
(`Task.eq_drop_of_gone`).
-/

namespace CountedCells

variable {V : Type} [Host V]

/-- Moves that give a reference back. -/
inductive Yield : Ledger V → Ledger V → Prop where
  /-- a value is put down, and the reference that it owned is left -/
  | part {h : Heap V} {os w} {v : V} :
      Yield ⟨h, {.value .caller v} + os, w⟩ ⟨h, Owner.ofRef v + os, w⟩
  /-- a task is carried out, and others may be waiting after it -/
  | task {h : Heap V} {os w} (t : Task V) :
      Yield ⟨h, {Owner.ofTask t} + os, w⟩
        ⟨(t.carryOut h).2, Owner.ofTasks (t.carryOut h).1 + os, w⟩
  /-- a reference to a block without a count is given back, and nobody takes notice -/
  | lapse {h : Heap V} {os w} {b : BlockId} {n : Nat} (hc : h.count b = 0) :
      Yield ⟨h, {.ref (.block b n)} + os, w⟩ ⟨h, os, w⟩

/-- References are given back, one after the other. -/
abbrev Yields : Ledger V → Ledger V → Prop := Relation.ReflTransGen Yield

theorem Yield.move [Faced V] {l l' : Ledger V} (hy : Yield l l') : Move l l' := by
  cases hy with
  | part => exact .part
  | task t => exact .task t
  | lapse hc => exact .lapse hc

/-- The first of the pending tasks is carried out. -/
theorem Yield.first (h : Heap V) (t : Task V) (ts : List (Task V)) (os : Multiset (Owner V))
    (w : Written V) :
    Yield ⟨h, Owner.ofTasks (t :: ts) + os, w⟩
      ⟨(t.carryOut h).2, Owner.ofTasks ((t.carryOut h).1 ++ ts) + os, w⟩ := by
  rw [Owner.ofTasks_cons, Owner.ofTasks_append, add_assoc, add_assoc]
  exact .task t

theorem Yields.moves [Faced V] {l l' : Ledger V} (hy : Yields l l') : Moves l l' :=
  Relation.ReflTransGen.mono (fun _ _ => Yield.move) _ _ hy

/-- Where there is a count, giving back a reference is a task. -/
theorem Heap.release_eq {h : Heap V} {b : BlockId} (hc : 0 < h.count b)
    (n : Nat) : (h.release b n).2 = h.settle [.drop (.block b n)] := by
  rw [release]
  split
  · omega
  · rfl
  · rfl

/-- Where there is a count, there is a reference to give back. -/
theorem Heap.release_ne_expired {h : Heap V} {b : BlockId}
    (hc : 0 < h.count b) (n : Nat) : (h.release b n).1 ≠ .expired := by
  rw [release]
  split
  · omega
  · exact Release.noConfusion
  · exact Release.noConfusion

namespace Yields

variable {h : Heap V} {os os' : Multiset (Owner V)} {w : Written V} {l : Ledger V}

/-- The owners may be told in another order. -/
theorem reown (hy : Yields ⟨h, os, w⟩ l) (hos : os' = os) : Yields ⟨h, os', w⟩ l := hos ▸ hy

/-! ## Dropping owners -/

/-- Pending tasks are carried out, with everything that they lead to. -/
theorem settle (ts : List (Task V)) :
    Yields ⟨h, Owner.ofTasks ts + os, w⟩ ⟨h.settle ts, os, w⟩ := by
  fun_induction Heap.settle ts h with
  | case1 h => exact reown .refl (zero_add os)
  | case2 h t ts ih => exact .head (.first h t ts os w) ih

theorem disown {holder : Holder} {v : V} :
    Yields ⟨h, {.value holder v} + os, w⟩ ⟨h.disown holder v, os, w⟩ :=
  settle [.disown holder v]

/-- Putting a value down and dropping what it owned. -/
theorem drop {v : V} : Yields ⟨h, {.value .caller v} + os, w⟩ ⟨h.drop v, os, w⟩ := by
  refine .head .part (reown (settle (Task.dropsOf v)) ?_)
  rw [Owner.ofTasks_dropsOf]

theorem dropAll {vs : List V} :
    Yields ⟨h, Owner.ofValues .caller vs + os, w⟩ ⟨h.dropAll vs, os, w⟩ := by
  induction vs generalizing h with
  | nil =>
    rw [Heap.dropAll_nil]
    exact reown .refl (zero_add os)
  | cons v vs ih =>
    rw [Heap.dropAll_cons]
    refine reown (drop.trans ih) ?_
    rw [Owner.ofValues_cons, add_assoc]

theorem dropPointer {p : Pointer} :
    Yields ⟨h, Owner.ofPointer p + os, w⟩ ⟨h.dropPointer p, os, w⟩ := by
  refine reown (settle (p.ref.toList.map .drop)) ?_
  rw [Owner.ofTasks_drop_ref]

theorem dropPointers {ps : List Pointer} :
    Yields ⟨h, Owner.ofPointers ps + os, w⟩ ⟨ps.foldl Heap.dropPointer h, os, w⟩ := by
  induction ps generalizing h with
  | nil => exact reown .refl (zero_add os)
  | cons p ps ih =>
    refine reown (dropPointer.trans ih) ?_
    rw [Owner.ofPointers_cons, add_assoc]

variable [Faced V]

/-- Giving back a reference either does that, or finds no count and does nothing. -/
theorem release {b n : Nat} (hl : Ledger.Sound ⟨h, {.ref (.block b n)} + os, w⟩) :
    ((h.release b n).1 = .expired ∧ (h.release b n).2 = h ∧ h.count b = 0) ∨
      ((h.release b n).1 ≠ .expired ∧
        Yields ⟨h, {.ref (.block b n)} + os, w⟩ ⟨(h.release b n).2, os, w⟩) := by
  obtain ⟨c, hc⟩ := hl.anchored b n (Ledger.mem_refs_head _)
  obtain ⟨block, hb, -, hn⟩ := Heap.exists_block_of_shape? hc
  have hsettle : Yields ⟨h, {.ref (.block b n)} + os, w⟩ ⟨h.settle [.drop (.block b n)], os, w⟩ :=
    settle [.drop (.block b n)]
  rw [Heap.release]
  match hc : h.count b with
  | 0 => exact .inl ⟨rfl, hn ▸ Heap.expect_eq hb, rfl⟩
  | 1 => exact .inr ⟨Release.noConfusion, hsettle⟩
  | c + 2 => exact .inr ⟨Release.noConfusion, hsettle⟩

/-- Giving back the references of a raw block, whatever its count. -/
theorem giveBack {u : RawBlock} (hl : Ledger.Sound ⟨h, Owner.ofRaw u + os, w⟩) :
    Yields ⟨h, Owner.ofRaw u + os, w⟩ ⟨u.giveBack h, os, w⟩ := by
  obtain ⟨b, n, k⟩ := u
  rw [RawBlock.giveBack]
  induction k generalizing os with
  | zero => exact reown .refl (zero_add os)
  | succ k ih =>
    -- the references before the last go first
    rw [Owner.ofRaw_succ_add] at hl ⊢
    have hbefore := ih hl
    rw [Nat.repeat]
    rcases release (Moves.sound hbefore.moves hl) with ⟨-, hheap, hcount⟩ | ⟨-, hlast⟩
    · -- the block has lost its count by hand, and the reference goes without being missed
      rw [hheap]
      exact hbefore.tail (.lapse hcount)
    · exact hbefore.trans hlast

end Yields

/-! ## What is left -/

/-- A task may destroy a block, and leaves the contents of the others alone. -/
theorem Task.contents_carryOut (t : Task V) (h : Heap V) {b : BlockId} {block : Block V}
    (hb : (t.carryOut h).2.block? b = some block) :
    ∃ before, h.block? b = some before ∧ block.contents = before.contents := by
  cases t with
  | disown holder v => exact ⟨block, hb, rfl⟩
  | drop r =>
    cases r with
    | block c n =>
      simp only [carryOut] at hb
      split at hb
      · exact ⟨block, Heap.block?_expect h c n b ▸ hb, rfl⟩
      · split at hb
        · exact ⟨block, Heap.block?_expect h c n b ▸ hb, rfl⟩
        · rw [Heap.block?_destroy, Heap.block?_expect] at hb
          split at hb
          · cases hb
          · exact ⟨block, hb, rfl⟩
        · rw [Heap.block?_setCount, Heap.block?_expect] at hb
          split at hb
          · obtain ⟨before, hbefore, rfl⟩ := Option.map_eq_some_iff.mp hb
            exact ⟨before, hbefore, rfl⟩
          · exact ⟨block, hb, rfl⟩
    | payload p =>
      simp only [carryOut] at hb
      split at hb
      · exact ⟨block, hb, rfl⟩
      · split at hb <;> exact ⟨block, hb, rfl⟩

/-- A task destroys no block but the one whose last reference it gives back. -/
theorem Task.eq_drop_of_gone (t : Task V) (h : Heap V) {b : BlockId} {block : Block V}
    (hb : h.block? b = some block) (hgone : (t.carryOut h).2.block? b = none) :
    ∃ n, t = .drop (.block b n) ∧ block.count = 1 := by
  have hstays {h' : Heap V} (hsame : h'.block? b = h.block? b) (hnone : h'.block? b = none) :
      False := by
    rw [hsame, hb] at hnone
    cases hnone
  -- whatever a task does, it does to the one block that it is about
  cases t with
  | disown holder v => exact (hstays rfl hgone).elim
  | drop r =>
    cases r with
    | block c n =>
      simp only [carryOut] at hgone
      split at hgone
      · exact (hstays (Heap.block?_expect h c n b) hgone).elim
      · rename_i other hother
        rw [Heap.block?_expect] at hother
        split at hgone
        · exact (hstays (Heap.block?_expect h c n b) hgone).elim
        · rename_i hcount
          rw [Heap.block?_destroy, Heap.block?_expect] at hgone
          split at hgone
          · rename_i hbc
            subst hbc
            rw [hb] at hother
            cases hother
            exact ⟨n, rfl, hcount⟩
          · exact (hstays rfl hgone).elim
        · rw [Heap.block?_setCount, Heap.block?_expect, hb] at hgone
          split at hgone <;> cases hgone
    | payload p =>
      simp only [carryOut] at hgone
      split at hgone
      · exact (hstays rfl hgone).elim
      · split at hgone <;> exact (hstays rfl hgone).elim

/-- Cascades destroy blocks, and leave the contents of the others alone. -/
theorem Heap.contents_settle (ts : List (Task V)) (h : Heap V) {b : BlockId} {block : Block V}
    (hb : (h.settle ts).block? b = some block) :
    ∃ before, h.block? b = some before ∧ block.contents = before.contents := by
  fun_induction Heap.settle ts h with
  | case1 h => exact ⟨block, hb, rfl⟩
  | case2 h t ts ih =>
    obtain ⟨next, hnext, hcontents⟩ := ih hb
    obtain ⟨before, hbefore, hcontents'⟩ := t.contents_carryOut h hnext
    exact ⟨before, hbefore, hcontents.trans hcontents'⟩

/-- What is left when references were given back holds what it held before. -/
theorem Yields.contents {l l' : Ledger V} (hy : Yields l l') {b : BlockId} {block : Block V}
    (hb : l'.heap.block? b = some block) :
    ∃ before, l.heap.block? b = some before ∧ block.contents = before.contents := by
  induction hy generalizing block with
  | refl => exact ⟨block, hb, rfl⟩
  | tail _ hstep ih =>
    cases hstep with
    | part => exact ih hb
    | lapse hc => exact ih hb
    | task t =>
      obtain ⟨next, hnext, hcontents⟩ := t.contents_carryOut _ hb
      obtain ⟨before, hbefore, hcontents'⟩ := ih hnext
      exact ⟨before, hbefore, hcontents.trans hcontents'⟩

end CountedCells

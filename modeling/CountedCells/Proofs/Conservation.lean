import CountedCells.Proofs.Chronicle
import CountedCells.Proofs.Calls

/-!
# Conservation: references that are taken for cells are given back

What was ever taken for a cell is, value by value, what cells have given back since and what they
hold (`Ledger.Conserved`). In the middle of an operation there is a third place where a value can
be: it was acquired for a cell and is not yet there, or it was taken out and is not yet given back.
Such a value is **in flight**, and the ledger knows who has it. Between commands nothing is in
flight, so once there are no blocks, everything that was taken for cells has been given back.

References that are taken for others, by reading or by hand, do not enter into this. That an
operation takes only those that it should, and gives none back but by overwriting a cell, is known
of each one by itself (`Heap.Accountable`).
-/

namespace CountedCells

open Attempt

variable {V : Type}

/-! ## What events tell of references -/

namespace Event

/-- The value to which a reference was taken for such a holder. -/
def taken? (holder : Holder) : Event V → Option V
  | .acquired x v _ => if x = holder then some v else none
  | _ => none

/-- The value to which such a holder gave a reference back. -/
def given? (holder : Holder) : Event V → Option V
  | .disowned x v _ => if x = holder then some v else none
  | _ => none

/-- The values to which references were taken, in the order of the events. -/
def taken (holder : Holder) (es : List (Event V)) : List V := es.filterMap (taken? holder)

/-- The values to which references were given back, in the order of the events. -/
def given (holder : Holder) (es : List (Event V)) : List V := es.filterMap (given? holder)

end Event

/-- The values in set cells of the blocks that are there. -/
def Heap.stored (h : Heap V) : List V := h.blocks.flatMap fun o => o.elim [] Block.stored

namespace Owner

/-- The value that somebody has on behalf of a cell. -/
def flying? : Owner V → Option V
  | value .cell v => some v
  | _ => none

/-- The values that are on the way into a cell or out of one. -/
def inFlight (os : Multiset (Owner V)) : Multiset V := os.filterMap flying?

@[simp] theorem inFlight_add (os os' : Multiset (Owner V)) :
    inFlight (os + os') = inFlight os + inFlight os' := Multiset.filterMap_add ..

@[simp] theorem inFlight_zero : inFlight (0 : Multiset (Owner V)) = 0 := rfl

@[simp] theorem inFlight_cons_ref (r : Ref) (os : Multiset (Owner V)) :
    inFlight (ref r ::ₘ os) = inFlight os := Multiset.filterMap_cons_none _ _ rfl

@[simp] theorem inFlight_cons_caller (v : V) (os : Multiset (Owner V)) :
    inFlight (value .caller v ::ₘ os) = inFlight os := Multiset.filterMap_cons_none _ _ rfl

@[simp] theorem inFlight_cons_cell (v : V) (os : Multiset (Owner V)) :
    inFlight (value .cell v ::ₘ os) = v ::ₘ inFlight os := Multiset.filterMap_cons_some _ _ _ rfl

@[simp] theorem inFlight_refs (rs : List Ref) :
    inFlight ((rs.map ref : List (Owner V)) : Multiset (Owner V)) = 0 := by
  simp [inFlight, flying?]

@[simp] theorem inFlight_ofCaller (vs : List V) : inFlight (ofValues .caller vs) = 0 := by
  simp [inFlight, ofValues, flying?]

@[simp] theorem inFlight_ofCell (vs : List V) : inFlight (ofValues .cell vs) = vs := by
  simp [inFlight, ofValues, flying?, Function.comp_def]

@[simp] theorem inFlight_ofRef [Host V] (v : V) : inFlight (ofRef v) = 0 := inFlight_refs _

@[simp] theorem inFlight_dropsOf [Host V] (v : V) : inFlight (ofTasks (Task.dropsOf v)) = 0 := by
  rw [ofTasks_dropsOf, inFlight_ofRef]

@[simp] theorem inFlight_flatMap_dropsOf [Host V] (vs : List V) :
    inFlight (ofTasks (vs.flatMap Task.dropsOf)) = 0 := by
  induction vs with
  | nil => rfl
  | cons v vs ih => rw [List.flatMap_cons, ofTasks_append, inFlight_add, ih, inFlight_dropsOf]; rfl

end Owner

/-- Nothing that a session names is on the way into a cell or out of one. -/
theorem Registers.inFlight_owners (r : Registers V) : Owner.inFlight r.owners = 0 := by
  have hnone {α : Type} (f : α → Multiset (Owner V)) (hf : ∀ a, Owner.inFlight (f a) = 0)
      (entries : List (String × α)) : Owner.inFlight (Entries.gather f entries) = 0 := by
    induction entries with
    | nil => rfl
    | cons e rest ih => rw [Entries.gather_cons, Owner.inFlight_add, hf, ih]; rfl
  rw [Registers.owners, Owner.inFlight_add, Owner.inFlight_add, hnone, hnone, hnone]
  · rfl
  · intro u
    rw [Owner.ofRaw, ← Multiset.coe_replicate, ← List.map_replicate]
    exact Owner.inFlight_refs _
  · intro v
    rfl
  · intro p
    cases p <;> rfl

/-! ## What is held by cells -/

namespace Heap

variable {h g : Heap V}

/-- Cells hold what the heap holds outside payloads. -/
theorem held_eq (h : Heap V) :
    h.held = (h.stored : Multiset V) + h.payloads.flatMap Payload.parts :=
  rfl

/-- As long as the payloads are the same, what cells hold changes as what the heap holds. -/
theorem stored_of_held {m n : Multiset V} (hpayloads : g.payloads = h.payloads)
    (hheld : g.held + m = h.held + n) : (g.stored : Multiset V) + m = h.stored + n := by
  rw [held_eq, held_eq, hpayloads, add_right_comm, add_right_comm _ _ n] at hheld
  exact add_right_cancel hheld

@[simp] theorem stored_log (h : Heap V) (e : Event V) : (h.log e).stored = h.stored := rfl

@[simp] theorem stored_setShares (h : Heap V) (p : PayloadId) (n : Nat) :
    (h.setShares p n).stored = h.stored := rfl

@[simp] theorem stored_clearPayload (h : Heap V) (p : PayloadId) :
    (h.clearPayload p).stored = h.stored := rfl

@[simp] theorem stored_addPayload (h : Heap V) (parts : List V) :
    (h.addPayload parts).stored = h.stored := rfl

@[simp] theorem stored_addBlock (h : Heap V) (n : Nat) : (h.addBlock n).stored = h.stored := by
  simp [stored, addBlock]

@[simp] theorem stored_setCount (h : Heap V) (b : BlockId) (n : Nat) :
    (h.setCount b n).stored = h.stored := by
  refine flatMap_modify _ (fun o => ?_) h.blocks b
  cases o <;> rfl

theorem countCells_eq (h : Heap V) (q : V → Bool) : h.countCells q = h.stored.countP q := by
  rw [countCells, stored, List.countP_flatMap]
  refine congrArg List.sum (List.map_congr_left fun o _ => ?_)
  cases o <;> rfl

/-- Where there is no block nothing is stored. -/
theorem stored_eq_nil (hnone : ∀ b, h.block? b = none) : h.stored = [] := by
  refine List.flatMap_eq_nil_iff.mpr fun o ho => ?_
  obtain ⟨b, hb⟩ := List.mem_iff_getElem?.mp ho
  have hgone := hnone b
  rw [block?, hb] at hgone
  cases o with
  | none => rfl
  | some block => cases hgone

end Heap

/-- What was taken for cells has been given back by cells, or it is in a cell, or on the way. -/
def Ledger.Conserved (l : Ledger V) : Prop :=
  (Event.taken .cell l.heap.trace : Multiset V) =
    Event.given .cell l.heap.trace + l.heap.stored + Owner.inFlight l.owners

/-- A heap where no reference was reported to be taken or given back. -/
theorem Ledger.Conserved.of_same {h h' : Heap V} {os os' : Multiset (Owner V)} {w w' : Written V}
    (hl : Ledger.Conserved ⟨h, os, w⟩)
    (htaken : Event.taken .cell h'.trace = Event.taken .cell h.trace)
    (hgiven : Event.given .cell h'.trace = Event.given .cell h.trace)
    (hstored : (h'.stored : Multiset V) + Owner.inFlight os' = h.stored + Owner.inFlight os) :
    Ledger.Conserved ⟨h', os', w'⟩ := by
  unfold Conserved at hl ⊢
  simp only [htaken, hgiven, add_assoc, hstored]
  rw [hl, add_assoc]

section

variable [Host V] [Faced V]

/-- A task that is carried out moves values from cells into flight, and out of flight when they are
given back. -/
theorem Task.conserved {h : Heap V} {os : Multiset (Owner V)} {w : Written V} (t : Task V)
    (hl : Ledger.Sound ⟨h, {Owner.ofTask t} + os, w⟩)
    (hc : Ledger.Conserved ⟨h, {Owner.ofTask t} + os, w⟩) :
    Ledger.Conserved ⟨(t.carryOut h).2, Owner.ofTasks (t.carryOut h).1 + os, w⟩ := by
  cases t with
  | disown holder v =>
    cases holder with
    | cell =>
      -- the value leaves the flight and is told as given back
      have htold : Event.given .cell (Event.disowned .cell v h.stats :: h.trace) =
          v :: Event.given .cell h.trace := rfl
      have hbefore : (Event.taken .cell h.trace : Multiset V) =
          Event.given .cell h.trace + h.stored + v ::ₘ Owner.inFlight os := by
        simpa [Ledger.Conserved, Owner.ofTask] using hc
      show (Event.taken .cell h.trace : Multiset V) = _
      simp only [carryOut, Heap.log, htold, Owner.inFlight_add, Owner.inFlight_dropsOf, zero_add]
      rw [hbefore, ← Multiset.cons_coe, Multiset.add_cons, Multiset.cons_add, Multiset.cons_add]
      rfl
    | caller => exact hc.of_same rfl rfl (by simp [carryOut, Owner.ofTask])
  | drop r =>
    cases r with
    | block b n =>
      obtain ⟨c, hc'⟩ := hl.anchored b n (Ledger.mem_refs_head _)
      obtain ⟨block, hb, -, rfl⟩ := Heap.exists_block_of_shape? hc'
      have hb : h.block? b = some block := hb
      simp only [carryOut, Heap.expect_eq hb, hb]
      split
      · exact hc.of_same rfl rfl (by simp [Owner.ofTask])
      · -- the values of the block are in flight now
        have hheld := Heap.held_destroy hb block.size
        have hstored := Heap.stored_of_held (h := h) (g := h.destroy b block.size)
          (m := block.stored) (n := 0) rfl (by rw [hheld, add_zero])
        refine hc.of_same rfl rfl ?_
        simp only [Owner.ofTasks_disown, Block.values_size, Owner.inFlight_add,
          Owner.inFlight_ofCell, Owner.ofTask, Multiset.singleton_add, Owner.inFlight_cons_ref]
        rw [← add_assoc, hstored, add_zero]
      · exact hc.of_same rfl rfl (by simp [Owner.ofTask])
    | payload p =>
      simp only [carryOut]
      split
      · exact hc.of_same rfl rfl (by simp [Owner.ofTask])
      · split <;> exact hc.of_same rfl rfl (by simp [Owner.ofTask])

/-- Every move conserves references. -/
theorem Move.conserved {l l' : Ledger V} (m : Move l l') (hl : l.Sound) (hc : l.Conserved) :
    l'.Conserved := by
  cases m with
  | @take h os w r hr hlive =>
    cases r with
    | block b n => exact hc.of_same rfl rfl (by simp [Heap.take])
    | payload p => exact hc.of_same rfl rfl (by simp [Heap.take])
  | @report h os w v holder =>
    cases holder with
    | cell =>
      -- the value takes off
      have htold : Event.taken .cell (h.log (.acquired .cell v h.stats)).trace =
          v :: Event.taken .cell h.trace := rfl
      have hbefore : (Event.taken .cell h.trace : Multiset V) =
          Event.given .cell h.trace + h.stored + Owner.inFlight os := by
        simpa [Ledger.Conserved] using hc
      show ((Event.taken .cell (h.log (.acquired .cell v h.stats)).trace : List V) : Multiset V) =
        Event.given .cell h.trace + h.stored + Owner.inFlight (Owner.value .cell v ::ₘ os)
      rw [htold, ← Multiset.cons_coe, hbefore, Owner.inFlight_cons_cell, Multiset.add_cons]
    | caller => exact hc.of_same rfl rfl rfl
  | @write h os w v b i block hb hi =>
    -- the value lands, and what was in the cell takes off
    have hstored := Heap.stored_of_held (h := h) (g := h.setValue b i (some v)) rfl
      (Heap.held_setValue hb hi (some v))
    refine hc.of_same rfl rfl ?_
    simp only [Owner.inFlight_add, Owner.inFlight_ofCell, Multiset.singleton_add,
      Owner.inFlight_cons_cell]
    rw [← add_assoc, hstored, Option.toList_some, Multiset.coe_singleton, add_assoc,
      Multiset.singleton_add]
  | @swap h os w b c i j block other hb hi hc' hj =>
    have hheld := Heap.held_swap hb hi hc' hj
    rw [Heap.swap_eq hb hi hc' hj] at hheld ⊢
    have hstored := Heap.stored_of_held (h := h) (m := 0) (n := 0)
      (g := (h.setValue b i (h.value? c j)).setValue c j (h.value? b i)) rfl (by rw [hheld])
    exact hc.of_same rfl rfl (by simpa using hstored)
  | task t => exact t.conserved hl hc
  | @note h os w e he =>
    cases e with
    | upgraded b => exact hc.of_same rfl rfl rfl
    | rebuilt b n => exact hc.of_same rfl rfl rfl
    | _ => exact he.elim
  | unsettle _ | configure _ => exact hc.of_same rfl rfl rfl
  | allocate _ | adopt _ | part | share _ _ | lapse _ => exact hc.of_same rfl rfl (by simp)

theorem Moves.conserved {l l' : Ledger V} (ms : Moves l l') (hl : l.Sound) (hc : l.Conserved) :
    l'.Conserved := by
  induction ms with
  | refl => exact hc
  | tail ms m ih => exact m.conserved (Moves.sound ms hl) ih

end

/-! ## Runs -/

/-- The calls of operations are accounted for. -/
structure Heap.Accountable [Host V] (h : Heap V) : Prop where
  /-- an operation that fails has reported an error, and makes no call, or else it came to a count
  that cannot be raised as often as it takes references -/
  refused : ∀ o : Operation V, o.Given h → ∀ f, (o.run h).fault? = some f →
    (∃ e, f = .error e) ∧ (o.run h).heap = h ∨ h.Overflows (o.takes h) f
  /-- one that does not makes the calls that it should -/
  served : ∀ o : Operation V, o.Given h → (o.run h).fault? = none → (o.run h).Served o h
  /-- reading a cell by hand makes one call if the cell is set, and none if it is not -/
  read : ∀ b block i, h.block? b = some block → i < block.size →
    Ends (Heap.read b i h)
      (fun _ g => g.calls = h.acquiring .caller (h.value? b i).toList ++ h.calls)
      fun f _ => h.Overflows 1 f
  /-- dropping a pointer that is not the last one makes none -/
  shared : ∀ b n, h.Leads (.block b n) → 2 ≤ h.count b →
    (h.dropPointer (.cells b n)).calls = h.calls

theorem Heap.Intact.accountable [Host V] {h : Heap V} (hi : h.Intact) : h.Accountable where
  refused o ho f hf := by
    refine (Operation.refused ho hi hf).imp ?_ And.right
    rintro ⟨e, -, hrun⟩
    rw [hrun] at hf ⊢
    cases hf
    exact ⟨⟨e, rfl⟩, rfl⟩
  served o ho hnone := by
    rcases hcause : o.cause? h with - | e
    · rcases Operation.served ho hi hcause with hserved | ⟨f, hf, -⟩
      · exact hserved
      · rw [hf] at hnone
        cases hnone
    · rw [ho.reports.reported e hcause] at hnone
      cases hnone
  read b block i hb hlt := by
    have hread := (Heap.Calls.refl h).ends_read hb hlt
      fun v hv => hi.counted_of_stored hb (Block.mem_stored_of_value? hv)
    refine hread.mono (fun _ g hg => ?_) fun f _ hf => hf.mono fun c => ?_
    · rw [hg.2.calls]
      cases h.value? b i <;> rfl
    · have hone := Option.length_toList_le (o := h.value? b i)
      simp only [List.length_nil]
      omega
  shared b n hleads hcount := by
    obtain ⟨block, hb, rfl⟩ := hleads
    rw [Heap.count_eq hb] at hcount
    rw [dropPointer_of_shared hb hcount]
    rfl

/-- References are conserved: what was taken for cells, less what cells gave back, is what they
hold. -/
structure Heap.Conserved (h : Heap V) : Prop where
  /-- however values are told apart -/
  balance : ∀ q : V → Bool, (Event.taken .cell h.trace).countP q =
    (Event.given .cell h.trace).countP q + h.countCells q
  /-- where no block is left, each reference that was taken has been given back -/
  settled : (∀ b, h.block? b = none) →
    (Event.taken .cell h.trace).Perm (Event.given .cell h.trace)

section

variable [Host V] [Faced V]

omit [Host V] [Faced V] in
/-- Between commands nothing is in flight. -/
theorem Ledger.Conserved.heap {s : Session V} {w : Written V} (hc : (s.ledger w).Conserved) :
    s.heap.Conserved := by
  have hperm : (Event.taken .cell s.heap.trace).Perm
      (Event.given .cell s.heap.trace ++ s.heap.stored) := by
    have hnone : Owner.inFlight (s.ledger w).owners = 0 := Registers.inFlight_owners _
    rw [Ledger.Conserved, hnone, add_zero, Multiset.coe_add] at hc
    exact Multiset.coe_eq_coe.mp hc
  refine ⟨fun q => ?_, fun hnone => ?_⟩
  · rw [hperm.countP_eq, List.countP_append, Heap.countCells_eq]
  · rwa [Heap.stored_eq_nil hnone, List.append_nil] at hperm

/-- References are conserved on the way from a session with exact counts to another one. -/
theorem Session.InOrder.conserves {s s' : Session V} {w w' : Written V} (hs : s.InOrder w)
    (he : (s.ledger w).Exact) (hc : (s.ledger w).Conserved)
    (hmoves : Moves (s.ledger w) (s'.ledger w')) :
    s.Throughout (fun l => l.Conserved ∧ l.heap.Accountable) s' := by
  refine .of_moves hmoves fun l hl => ⟨Moves.conserved hl hs.sound hc, ?_⟩
  have he' : l.Exact := Moves.tally countRule_exactly hl hs.sound he
  exact (he'.intact (Moves.sound hl hs.sound)).accountable

end

/-- In every session that is reached without setting a count by hand, of values or of any host, the
references that were taken for cells are conserved, and operations make the calls that they should.
So it is wherever a command has come to and while the session is closed, as long as it is minded
what is in flight. -/
theorem references_conserved :
    (∀ {s : Session Value}, Reached Session.stepValue (fun c _ => c.Steady) s →
      s.heap.Conserved ∧ s.heap.Accountable ∧
        s.Throughout (fun l => l.Conserved ∧ l.heap.Accountable) s.close ∧
        ∀ c : ValueCommand, c.Steady →
          s.Throughout (fun l => l.Conserved ∧ l.heap.Accountable) (s.stepValue c).2) ∧
    ∀ {V E : Type} [Host V] [Faced V] [Expression E V] [Meaning E] [Faithful E V] {s : Session V},
      Reached (Session.step (E := E)) (fun c _ => c.Steady) s →
        s.heap.Conserved ∧ s.heap.Accountable ∧
          s.Throughout (fun l => l.Conserved ∧ l.heap.Accountable) s.close ∧
          ∀ c : Command E, c.Steady →
            s.Throughout (fun l => l.Conserved ∧ l.heap.Accountable) (s.step c).2 := by
  constructor
  · intro s hs
    obtain ⟨system, w, hw, he, hmoves⟩ := hs.exact
    have hc : (s.ledger w).Conserved := Moves.conserved hmoves (Ledger.sound_empty system) rfl
    refine ⟨hc.heap, (he.intact hw.sound).accountable, hw.conserves he hc hw.moves_close,
      fun c hsteady => ?_⟩
    obtain ⟨w', -, hstep⟩ := hw.step hsteady (hw.sensible he c)
    exact hw.conserves he hc hstep
  · intro V E _ _ _ _ _ s hs
    obtain ⟨system, w, hw, he, hmoves⟩ := hs.exact_step
    have hc : (s.ledger w).Conserved := Moves.conserved hmoves (Ledger.sound_empty system) rfl
    refine ⟨hc.heap, (he.intact hw.sound).accountable, hw.conserves he hc hw.moves_close,
      fun c hsteady => ?_⟩
    obtain ⟨w', -, hstep⟩ := hw.step_command hsteady (hw.sensible_command he c)
    exact hw.conserves he hc hstep

/-- Two numbers are the same, and one of them is overwritten: it was taken twice, given back once,
and one cell holds it. And when all blocks of values are gone, whatever was taken was given back. -/
theorem overwritten_number_is_given_back :
    let t := Session.run [.allocate "a" (Tracked.Term.literal 5),
      .allocateValues "b" [.literal 5, .literal 7], .set "a" (.literal 7)] (.empty (.ofMemory 100))
    let s := Session.runValue [.common (.allocateValues "a" [.int 5, .list [.int 7]]),
      .common (.allocate "b" (.handle "a")), .common (.drop "a"), .common (.drop "b")]
      (.empty (.ofMemory 100))
    let five (v : Tracked) : Bool := v.number == 5
    (Event.taken .cell t.heap.trace).countP five = 2 ∧
      (Event.given .cell t.heap.trace).countP five = 1 ∧ t.heap.countCells five = 1 ∧
      t.heap.Conserved ∧ (Event.taken .cell s.heap.trace).length = 3 ∧
      (Event.taken .cell s.heap.trace).Perm (Event.given .cell s.heap.trace) := by
  intro t s five
  have ht : Reached (Session.step (E := Tracked.Term)) (fun c _ => c.Steady) t :=
    (Reached.start _).runBy (by simp [Command.Steady])
  have hs : Reached Session.stepValue (fun c _ => c.Steady) s :=
    (Reached.start _).runBy (by simp [ValueCommand.Steady, Command.Steady])
  have hgone : ∀ b, s.heap.block? b = none := by
    intro b
    have hall : s.heap.blocks.all Option.isNone = true := by decide +kernel
    rw [Heap.block?]
    rcases hb : s.heap.blocks[b]? with - | o
    · rfl
    · exact Option.isNone_iff_eq_none.mp (List.all_eq_true.mp hall o (List.mem_of_getElem? hb))
  exact ⟨by decide +kernel, by decide +kernel, by decide +kernel, (references_conserved.2 ht).1,
    by decide +kernel, (references_conserved.1 hs).1.settled hgone⟩

end CountedCells

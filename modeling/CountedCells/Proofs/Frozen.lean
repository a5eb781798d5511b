import CountedCells.Proofs.Chronicle
import CountedCells.Proofs.WriteBack

/-!
# Frozen: a block without a count

When the count of a block has become zero while the block has owners, the block is out of use, but
it is still there: no reference to it is taken any more, and to give one back changes nothing. It
is **frozen**. A pointer to it that is dropped is reported, once, wherever it was; so what a cascade
reports adds up with the owners that are left (`Heap.reports_settle`). All other blocks go on to be
counted, and their counts stay exact (`Ledger.ExactBut`), because every move either leaves a count
alone or finds one to work with.

The cells of a frozen block can be read and written like others. Only a pointer to the block cannot
be copied, neither out of a cell nor into one, whatever block the cell belongs to; such a read or
write is abandoned, and leaves everything as it was (`Heap.Reads`, `Ledger.Writes`). So it is where
another block has as many owners as there can be, and nothing else is in the way
(`Ledger.ExactBut.obstructs`).
-/

namespace CountedCells

open Attempt

variable {V : Type}

/-! ## What is refused -/

/-- The event tells that a pointer to the block was dropped when the block had no count. -/
def Event.tellsExpiry (b : BlockId) : Event V → Bool
  | .droppedExpired c => c == b
  | _ => false

namespace Heap

/-- How often it was told that a pointer to the block was dropped when the block had no count. -/
def expiries (h : Heap V) (b : BlockId) : Nat := h.trace.countP (Event.tellsExpiry b)

variable [Host V]

/-- No reference to the block can be taken, and to give one back changes nothing. Of a pointer that
is dropped there is a report. -/
structure Refuses (h : Heap V) (b : BlockId) (n : Nat) : Prop where
  /-- no reference is taken by hand -/
  retain : Heap.retain b h = (.error (.error (.expired (.block b))), h)
  /-- there is no second pointer -/
  bind : (Pointer.cells b n).bind h = (.error (.error (.expired (.block b))), h)
  /-- a pointer is not copied -/
  copy : (Pointer.cells b n).copy h = (.error (.abandoned b), h)
  /-- nor is a value that is one -/
  acquire : ∀ holder (v : V), Host.ref v = some (.block b n) →
    Heap.acquire holder v h = (.error (.abandoned b), h)
  /-- a reference that is given back by hand is found expired -/
  release : h.release b n = (.expired, h)
  /-- a pointer that is dropped is reported -/
  dropPointer : h.dropPointer (.cells b n) = h.log (.droppedExpired b)
  /-- so is a value that is one -/
  drop : ∀ v : V, Host.ref v = some (.block b n) → h.drop v = h.log (.droppedExpired b)
  /-- and so is a reference that comes up in a cascade, which does not go on from there -/
  task : (Task.drop (.block b n) : Task V).carryOut h = ([], h.log (.droppedExpired b))

/-- A block without a count refuses. -/
theorem refuses {h : Heap V} {b n : Nat} (hb : h.shape? b = some (0, n)) : h.Refuses b n := by
  obtain ⟨block, hblock, hcount, rfl⟩ := exists_block_of_shape? hb
  have hzero : h.count b = 0 := (count_eq hblock).trans hcount
  have htouch : h.touch b 0 = h := touch_eq hblock (Nat.succ_pos _)
  have hretain : Heap.retain b h = (.error (.error (.expired (.block b))), h) := by
    rw [Heap.retain, retainOr_of_zero hzero, htouch]
  have hcopy : Heap.copyRef (.block b block.size) h = (.error (.abandoned b), h) := by
    rw [Heap.copyRef, retainOr_of_zero hzero, htouch]
  have htask : (Task.drop (.block b block.size) : Task V).carryOut h =
      ([], h.log (.droppedExpired b)) := by
    simp only [Task.carryOut, expect_eq hblock, hblock, hcount]
  have hdrop : h.settle [.drop (.block b block.size)] = h.log (.droppedExpired b) := by
    rw [settle_cons, htask, List.nil_append, settle_nil]
  refine ⟨hretain, bind_of_error hretain, bind_of_error hcopy, fun holder v hv => ?_, ?_, hdrop,
    fun v hv => ?_, htask⟩
  · refine bind_of_error ?_
    rw [Heap.copy, hv]
    exact hcopy
  · simp only [Heap.release, hzero, expect_eq hblock]
  · rw [Heap.drop, Task.dropsOf, hv]
    exact hdrop

end Heap

/-! ## What is reported -/

/-- From one ledger to the other, as many pointers to the block are reported as owners go. -/
def Ledger.Reports [Host V] (l l' : Ledger V) (b : BlockId) : Prop :=
  l'.heap.expiries b + l'.ownersOf b = l.heap.expiries b + l.ownersOf b

namespace Heap

section

variable [Host V] [Faced V] {h : Heap V} {os : Multiset (Owner V)} {w : Written V} {b n : Nat}

omit [Faced V] in
/-- A reference to something else that comes up in a cascade is none of this block's. -/
theorem expiries_drop_of_ne {r : Ref} (hr : r.block? ≠ some b) :
    ((Task.drop r : Task V).carryOut h).2.expiries b = h.expiries b := by
  cases r with
  | block c m =>
    have hne : (c == b) = false := beq_eq_false_iff_ne.mpr fun hc => hr (congrArg some hc)
    have hexpect : (h.expect c m).expiries b = h.expiries b := by
      rw [expect]
      split <;> rfl
    simp only [Task.carryOut]
    split
    · exact hexpect
    · split
      · refine (List.countP_cons_of_neg ?_).trans hexpect
        rw [Event.tellsExpiry, hne]
        exact Bool.false_ne_true
      · exact (List.countP_cons_of_neg Bool.false_ne_true).trans hexpect
      · exact hexpect
  | payload p =>
    simp only [Task.carryOut]
    split
    · rfl
    · split <;> rfl

/-- A task of a cascade that takes an owner from the block reports it, and it reports nothing of the
block else. -/
theorem reports_carryOut (t : Task V) (hl : Ledger.Sound ⟨h, {Owner.ofTask t} + os, w⟩)
    (hb : h.shape? b = some (0, n)) :
    Ledger.Reports ⟨h, {Owner.ofTask t} + os, w⟩
      ⟨(t.carryOut h).2, Owner.ofTasks (t.carryOut h).1 + os, w⟩ b := by
  show (t.carryOut h).2.expiries b + _ = h.expiries b + _
  cases t with
  | disown holder v =>
    have hsame : (h.log (.disowned holder v h.stats)).expiries b = h.expiries b :=
      List.countP_cons_of_neg Bool.false_ne_true
    simp only [Task.carryOut, Owner.ofTasks_dropsOf, Owner.ofTask, hsame, Ledger.ownersOf,
      Ledger.refs_mk, held_log, Owner.refs_add, Owner.refs_value, Owner.refs_ofRef]
  | drop r =>
    have hrefs : Ledger.refs ⟨h, {.ref r} + os, w⟩ = {r} +
        Ledger.refs ⟨((Task.drop r).carryOut h).2,
          Owner.ofTasks ((Task.drop r).carryOut h).1 + os, w⟩ := by
      cases r with
      | block c m => exact Ledger.refs_drop_block hl
      | payload p => exact Ledger.refs_drop_payload h os w p
    by_cases hr : r.block? = some b
    · obtain ⟨m, rfl⟩ : ∃ m, r = .block b m := by
        cases r with
        | block c m => exact ⟨m, by rw [Option.some.inj hr]⟩
        | payload p => cases hr
      -- the reference tells the number of cells, so the task finds what it expects
      obtain ⟨c, hc⟩ := hl.anchored b m (Ledger.mem_refs_head _)
      rw [hb] at hc
      cases hc
      have howners := Ledger.ownersOf_self hrefs
      have htold : (h.log (.droppedExpired b)).expiries b = h.expiries b + 1 :=
        List.countP_cons_of_pos (beq_self_eq_true b)
      rw [(refuses hb).task] at howners ⊢
      rw [Owner.ofTask, howners, htold]
      omega
    · rw [Owner.ofTask, expiries_drop_of_ne hr, Ledger.ownersOf_other hrefs hr]

/-- In a cascade every pointer to the block that goes is reported, and nothing else is reported of
the block. -/
theorem reports_settle (ts : List (Task V)) (hl : Ledger.Sound ⟨h, Owner.ofTasks ts + os, w⟩)
    (hb : h.shape? b = some (0, n)) :
    Ledger.Reports ⟨h, Owner.ofTasks ts + os, w⟩ ⟨h.settle ts, os, w⟩ b := by
  fun_induction settle ts h with
  | case1 h => rw [Owner.ofTasks_nil, zero_add, Ledger.Reports]
  | case2 h t ts ih =>
    have hmoves := Relation.ReflTransGen.single (Yield.first h t ts os w).move
    have hrest := ih (Moves.sound hmoves hl) ((Moves.expired_iff hmoves hl b n).mpr hb)
    rw [Owner.ofTasks_cons, add_assoc] at hl ⊢
    rw [Owner.ofTasks_append, add_assoc] at hrest
    exact hrest.trans (reports_carryOut t hl hb)

end

end Heap

/-! ## What is read and written -/

namespace Heap

variable {α : Type}

/-- What becomes of reading these data. If a pointer to the block is among them, reading is
abandoned and has left nothing behind. Otherwise they are read. Only a count that overflows can come
in between, where there is something other than a pointer to the block. -/
structure Reads (h : Heap V) (b : BlockId) (ds : List Datum) (view : α → List Datum)
    (out : Except Fault α × Heap V) : Prop where
  /-- a pointer to the block is not copied -/
  refused : (∃ d ∈ ds, d.denotes b = true) → ∃ f g, out = (.error f, g) ∧ h.Restored g ∧
    (f = .abandoned b ∨ (∃ d ∈ ds, d.denotes b = false) ∧ h.Overflows ds.length f)
  /-- everything else is read -/
  found : (∀ d ∈ ds, d.denotes b = false) →
    Ends out (fun a _ => view a = ds) fun f g => h.Restored g ∧ h.Overflows ds.length f

variable [Host V] [Faced V]

/-- The blocks that are there hold these data. -/
def Displays (h : Heap V) (cells : Cells) : Prop :=
  ∀ b block, h.block? b = some block → cells.entries b = facesOf block.contents

omit [Host V] [Faced V] in
/-- An operation that gives these data, and only data that could be copied, or is abandoned because
of one of them. -/
theorem Reads.of_ends {h : Heap V} {b : BlockId} {ds : List Datum} {view : α → List Datum}
    {out : Except Fault α × Heap V}
    (hends : Ends out (fun a _ => view a = ds ∧ ∀ d ∈ view a, d.denotes b = false) fun f g =>
      h.Restored g ∧ ∃ d ∈ ds, (d.denotes b = true ∧ f = .abandoned b ∨
        d.denotes b = false ∧ h.Overflows ds.length f)) :
    h.Reads b ds view out := by
  rcases out with ⟨f | a, g⟩
  · obtain ⟨hrestored, d, hd, ⟨hdenotes, rfl⟩ | ⟨hdenotes, hf⟩⟩ := hends
    · refine ⟨fun _ => ⟨_, g, rfl, hrestored, .inl rfl⟩, fun hnone => ?_⟩
      rw [hnone d hd] at hdenotes
      cases hdenotes
    · exact ⟨fun _ => ⟨f, g, rfl, hrestored, .inr ⟨⟨d, hd, hdenotes⟩, hf⟩⟩,
        fun _ => ⟨hrestored, hf⟩⟩
  · obtain ⟨rfl, hcopied⟩ := hends
    refine ⟨fun ⟨d, hd, hdenotes⟩ => ?_, fun _ => rfl⟩
    rw [hcopied d hd] at hdenotes
    cases hdenotes

theorem Recorded.displays {h : Heap V} {w : Written V} (hw : h.Recorded w) : h.Displays w.cells :=
  fun b block hb => Written.entries_cells (hw.contents b block hb)

/-- The value cannot be copied, because its block has no count, or because the count cannot be
raised so many times. -/
def Obstructs (h : Heap V) (k : Nat) (v : V) (f : Fault) : Prop :=
  ∃ b n, Host.ref v = some (.block b n) ∧ (h.count b = 0 ∧ f = .abandoned b ∨
    0 < h.count b ∧ f = .overflow b ∧ Config.countRange ≤ h.count b + k)

namespace Acquired

variable {h g : Heap V} {vs : List V} {c : BlockId} {block : Block V}

omit [Faced V] in
/-- A value that is not acquired after others is obstructed. -/
theorem obstructs (ha : h.Acquired vs g) {v : V} (hv : h.LeadsFrom v) {holder : Holder} {f : Fault}
    {g' : Heap V} (hrun : Heap.acquire holder v g = (.error f, g')) :
    h.Obstructs (vs.length + 1) v f := by
  obtain ⟨b, n, hr, hcause⟩ := copy_eq_error (acquire_eq_error hrun)
  obtain ⟨block, hb, -⟩ := hv _ hr
  have hcount := ha.ahead.count_eq hb
  refine ⟨b, n, hr, ?_⟩
  rw [Heap.count_eq hb]
  rcases hcause with ⟨hzero, rfl, -⟩ | ⟨hcrowded, rfl, -⟩
  · exact .inl ⟨by omega, rfl⟩
  · have htaken : Ref.countTo (vs.filterMap Host.ref : List Ref) b ≤ vs.length :=
      (Multiset.countP_le_card _ _).trans (List.length_filterMap_le _ _)
    rw [Crowded] at hcrowded
    have hpos : 0 < g.count b := by
      have hrange : 1 < Config.countRange := by decide
      omega
    exact .inr ⟨ha.count_pos hb hpos, rfl, by omega⟩

omit [Faced V] in
/-- A cell that is not read holds a value that is obstructed. -/
theorem ends_read_obstructs (ha : h.Acquired vs g) (hb : h.block? c = some block) {i : Nat}
    (hi : i < block.size) (hstored : ∀ v ∈ block.stored, h.LeadsFrom v) :
    Ends (Heap.read c i g) (fun _ _ => True)
      fun f _ => ∃ v, block.value? i = some v ∧ h.Obstructs (vs.length + 1) v f := by
  have hgb := ha.ahead.block?_eq hb
  have hvalue : g.value? c i = block.value? i := by
    rw [Heap.value?_eq hgb, Block.value?_eq, Block.contents_raised]
  rw [read_apply hgb hi, hvalue]
  rcases hv : block.value? i with - | v
  · exact ends_pure trivial
  · rcases hrun : Heap.acquire .caller v g with ⟨f | u, g'⟩
    · refine ends_of_error (bind_of_error hrun) ⟨v, rfl, ha.obstructs ?_ hrun⟩
      exact hstored v (Block.mem_stored_of_value? hv)
    · exact ends_of_ok (bind_of_ok hrun) trivial

omit [Faced V] in
/-- Cells that are not read one after another hold a value that is obstructed. -/
theorem ends_readOn_obstructs (hb : h.block? c = some block)
    (hstored : ∀ v ∈ block.stored, h.LeadsFrom v) {n i : Nat} (hn : i + n ≤ block.size)
    (ha : h.Acquired vs g) :
    Ends (Pointer.readOn c n i vs g) (fun _ _ => True)
      fun f _ => ∃ v ∈ block.stored, h.Obstructs (vs.length + n) v f := by
  induction n generalizing i vs g with
  | zero => exact ends_pure trivial
  | succ n ih =>
    have hi : i < block.size := by omega
    have hread := (ha.ends_read hb hi hstored).and (ha.ends_read_obstructs hb hi hstored)
    refine Ends.bind (hread.orElseUndo ?_) fun v g' ha' => (ih (by omega) ha'.1).mono
      (fun _ _ => id) ?_
    · rintro f g' ⟨-, v, hv, b, m, hr, hcause⟩
      refine ⟨v, Block.mem_stored_of_value? hv, b, m, hr, hcause.imp_right fun hf => ?_⟩
      exact ⟨hf.1, hf.2.1, hf.2.2.trans (by omega)⟩
    · rintro f - ⟨u, hu, hobstructs⟩
      rw [List.length_cons, Nat.add_assoc, Nat.add_comm 1] at hobstructs
      exact ⟨u, hu, hobstructs⟩

end Acquired

omit [Faced V] in
/-- When a value has been acquired, the heap holds what it held, and nothing was reported of the
block. -/
theorem of_acquire {h g : Heap V} {holder : Holder} {v : V} (b : BlockId)
    (hrun : Heap.acquire holder v h = (.ok (), g)) :
    g.held = h.held ∧ g.expiries b = h.expiries b := by
  obtain ⟨⟨⟩, h₁, hcopy, hlog⟩ := bind_eq_ok hrun
  cases hlog
  have htold : (h₁.log (.acquired holder v h₁.stats)).expiries b = h₁.expiries b :=
    List.countP_cons_of_neg Bool.false_ne_true
  rw [held_log, htold]
  rcases hr : Host.ref v with - | (⟨c, m⟩ | p) <;> rw [Heap.copy, hr] at hcopy
  · cases hcopy
    exact ⟨rfl, rfl⟩
  · obtain ⟨-, -, rfl⟩ := retainOr_eq_ok hcopy
    exact ⟨held_setCount .., rfl⟩
  · cases hcopy
    exact ⟨held_setShares .., rfl⟩

end Heap

section

variable [Host V] [Faced V] {l l' : Ledger V} {h : Heap V} {os : Multiset (Owner V)} {w : Written V}
  {b n : Nat}

/-- What becomes of writing a value to a cell of another block, or of the same. If the value is a
pointer to the block, writing is abandoned and has done nothing. Otherwise these are the data in the
cells then, and the pointers to the block that went with what was overwritten are reported; unless
the count of what the value points to overflows, and then nothing is done either. -/
structure Ledger.Writes (l : Ledger V) (b : BlockId) (v : V) (c : BlockId) (cells : Cells)
    (out : Except Fault Unit × Heap V) : Prop where
  /-- a pointer to the block is not copied -/
  refused : (face v).denotes b = true → out = (.error (.abandoned b), l.heap)
  /-- everything else is written, and the written block is there -/
  stored : (face v).denotes b = false →
    Ends out
      (fun _ g => g.Displays cells ∧ (∃ block, g.block? c = some block) ∧
        l.Reports ⟨g, l.owners, l.written⟩ b)
      fun f g => g = l.heap ∧ l.heap.Overflows 1 f

/-- A value is a pointer to a block if it owns a reference to it. -/
theorem denotes_iff {v : V} :
    (face v).denotes b = true ↔ ∃ m, Host.ref v = some (.block b m) := by
  rw [← any_ref_block, Option.any_eq_true]
  constructor
  · rintro ⟨r, hr, hb⟩
    cases r with
    | block c m =>
      obtain rfl : c = b := Option.some.inj (of_decide_eq_true hb)
      exact ⟨m, hr⟩
    | payload p => cases of_decide_eq_true hb
  · rintro ⟨m, hr⟩
    exact ⟨_, hr, decide_eq_true rfl⟩

/-! ## Counts of the other blocks -/

omit [Faced V] in
/-- The block has no count, and all other counts are exact. -/
structure Ledger.ExactBut (l : Ledger V) (b : BlockId) (n : Nat) : Prop where
  /-- the block is there, without a count -/
  expired : l.heap.shape? b = some (0, n)
  /-- the counts of the others are the numbers of their owners -/
  others : ∀ c k m, c ≠ b → l.heap.shape? c = some (k, m) → Exactly k (l.ownersOf c)

/-- What counting keeps up, it keeps up next to blocks without a count. -/
theorem CountRule.orZero {R : Nat → Nat → Prop} (hR : CountRule R) :
    CountRule fun c o => c = 0 ∨ R c o where
  fresh := .inr hR.fresh
  more := fun hc hroom h => .inr (hR.more hc hroom (h.resolve_left (Nat.ne_of_gt hc)))
  less := fun h => .inr (hR.less (h.resolve_left (Nat.succ_ne_zero _)))
  lapse := fun _ => .inl rfl

/-- Moves leave the block without a count, and the other counts exact. -/
theorem Moves.exactBut (ms : Moves l l') (hl : l.Sound) (he : l.ExactBut b n) :
    l'.ExactBut b n where
  expired := (Moves.expired_iff ms hl b n).mpr he.expired
  others c k m hc hshape := by
    have htally : l.Tally fun c o => c = 0 ∨ Exactly c o := by
      intro c k m hshape
      by_cases hcb : c = b
      · rw [hcb, he.expired] at hshape
        cases hshape
        exact .inl rfl
      · exact .inr (he.others c k m hcb hshape)
    have hnow := Moves.tally countRule_exactly.orZero ms hl htally c k m hshape
    refine hnow.resolve_left ?_
    -- no other block was without a count before
    rintro rfl
    have hbefore := (Moves.expired_iff ms hl c m).mp hshape
    exact Nat.lt_irrefl 0 (he.others c 0 m hc hbefore).2

omit [Faced V] in
/-- There is no other block without a count. -/
theorem Ledger.ExactBut.eq_of_expired (he : l.ExactBut b n) {c m : Nat}
    (hc : l.heap.shape? c = some (0, m)) : c = b := by
  by_contra hne
  exact Nat.lt_irrefl 0 (he.others c 0 m hne hc).2

/-- A block without a count gets no more owners. -/
theorem countRule_fewer (k : Nat) : CountRule fun c o => c = 0 → o ≤ k where
  fresh := nofun
  more := fun _ _ _ hzero => absurd hzero (Nat.succ_ne_zero _)
  less := nofun
  lapse := fun h hzero => Nat.le_of_succ_le (h hzero)

theorem Moves.ownersOf_le (ms : Moves l l') (hl : l.Sound) (he : l.ExactBut b n) :
    l'.ownersOf b ≤ l.ownersOf b := by
  have htally : l.Tally fun c o => c = 0 → o ≤ l.ownersOf b := by
    rintro c k m hshape rfl
    rw [he.eq_of_expired hshape]
  exact Moves.tally (countRule_fewer _) ms hl htally b 0 n
    ((Moves.expired_iff ms hl b n).mpr he.expired) rfl

/-- Nothing is reported of the block but that an owner of it went. -/
theorem Move.reports_le (m : Move l l') (hl : l.Sound) (he : l.ExactBut b n) :
    l'.heap.expiries b + l'.ownersOf b ≤ l.heap.expiries b + l.ownersOf b := by
  have howners : l'.ownersOf b ≤ l.ownersOf b := Moves.ownersOf_le (.single m) hl he
  have hquiet (hsame : l'.heap.expiries b = l.heap.expiries b) :
      l'.heap.expiries b + l'.ownersOf b ≤ l.heap.expiries b + l.ownersOf b := by omega
  cases m with
  | task t => exact (Heap.reports_carryOut t hl he.expired).le
  | adopt | part | share | write | lapse | configure => exact hquiet rfl
  | allocate | report | unsettle => exact hquiet (List.countP_cons_of_neg Bool.false_ne_true)
  | @take h os w r => cases r <;> exact hquiet rfl
  | swap hb hi hc hj => exact hquiet (by rw [Heap.swap_eq hb hi hc hj]; rfl)
  | @note h os w e hnote =>
    refine hquiet (List.countP_cons_of_neg ?_)
    cases e <;> first | exact Bool.false_ne_true | exact hnote.elim

theorem Moves.reports_le (ms : Moves l l') (hl : l.Sound) (he : l.ExactBut b n) :
    l'.heap.expiries b + l'.ownersOf b ≤ l.heap.expiries b + l.ownersOf b := by
  induction ms with
  | refl => exact Nat.le_refl _
  | tail hbefore m ih =>
    exact (m.reports_le (Moves.sound hbefore hl) (Moves.exactBut hbefore hl he)).trans ih

namespace Ledger

omit [Faced V] in
/-- Where all counts were exact and one is set to zero, the others still are. -/
theorem Exact.expire (he : Ledger.Exact ⟨h, os, w⟩) {block : Block V}
    (hb : h.block? b = some block) : Ledger.ExactBut ⟨h.setCount b 0, os, w⟩ b block.size where
  expired := by rw [Heap.shape?_setCount hb, Function.update_self]
  others c k m hc hshape := by
    rw [Heap.shape?_setCount hb, Function.update_of_ne hc] at hshape
    rw [ownersOf, refs_setCount]
    exact he c k m hshape

namespace ExactBut

/-- What was acquired is no pointer to the block. -/
theorem not_denotes_of_acquired (he : l.ExactBut b n) {vs : List V} {g : Heap V}
    (ha : l.heap.Acquired vs g) {v : V} (hv : v ∈ vs) : (face v).denotes b = false := by
  by_contra hne
  obtain ⟨m, hr⟩ := denotes_iff.mp (Bool.not_eq_false _ ▸ hne)
  obtain ⟨block, hb, -, hpos⟩ := ha.live _ (List.mem_filterMap.mpr ⟨v, hv, hr⟩)
  obtain ⟨other, hother, hzero, -⟩ := Heap.exists_block_of_shape? he.expired
  rw [hb] at hother
  cases hother
  omega

/-! ## Reading and writing -/

variable {α β : Type}

/-- A value that leads somewhere cannot be copied because it is a pointer to the block, or because a
count overflows. -/
theorem obstructs (he : l.ExactBut b n) {v : V} (hv : l.heap.LeadsFrom v) {k : Nat} {f : Fault}
    (hf : l.heap.Obstructs k v f) :
    (face v).denotes b = true ∧ f = .abandoned b ∨
      (face v).denotes b = false ∧ l.heap.Overflows k f := by
  obtain ⟨c, m, hr, ⟨hzero, rfl⟩ | ⟨hpos, rfl, hcount⟩⟩ := hf
  · obtain ⟨block, hblock, -⟩ := hv _ hr
    have hshape : l.heap.shape? c = some (0, block.size) := by
      rw [Heap.shape?_eq hblock, ← Heap.count_eq hblock, hzero]
    obtain rfl := he.eq_of_expired hshape
    exact .inl ⟨denotes_iff.mpr ⟨m, hr⟩, rfl⟩
  · refine .inr ⟨?_, c, rfl, hcount⟩
    by_contra hne
    obtain ⟨k', hr'⟩ := denotes_iff.mp (Bool.not_eq_false _ ▸ hne)
    obtain ⟨block, hblock, hzero, -⟩ := Heap.exists_block_of_shape? he.expired
    rw [hr] at hr'
    cases hr'
    rw [Heap.count_eq hblock, hzero] at hpos
    exact Nat.lt_irrefl 0 hpos

/-- Reading one cell. -/
theorem reads_read (he : l.ExactBut b n) (hl : l.Sound) (hw : l.heap.Recorded l.written)
    {c m i : Nat} (hc : .block c m ∈ Owner.refs l.owners) (hi : i < m) :
    l.heap.Reads b [l.written.cells.entry c i] (fun v => [face v]) (Heap.read c i l.heap) := by
  have st : Stage l l.heap l.owners l.written := Stage.start hl hw
  obtain ⟨block, hb, rfl⟩ := st.exists_block (Ledger.mem_refs_of_owned hc)
  have hleads : ∀ v ∈ block.stored, l.heap.LeadsFrom v := fun _ => hl.leads_stored hb
  have hgives := (mirrors_read (r := {}) st hc hi).ends_view rfl
  have hleaves := (Heap.Acquired.nil l.heap).ends_read hb hi hleads
  have hstops := (Heap.Acquired.nil l.heap).ends_read_obstructs hb hi hleads
  refine .of_ends ((hgives.and (hleaves.and hstops)).mono ?_ ?_)
  · rintro v g ⟨hv, ha, -⟩
    refine ⟨congrArg (fun d => [d]) hv, fun d hd => ?_⟩
    rw [List.mem_singleton.mp hd]
    exact he.not_denotes_of_acquired ha (List.mem_singleton_self v)
  · rintro f g ⟨-, ⟨rfl, -⟩, v, hv, hobstructs⟩
    have hentry : l.written.cells.entry c i = face v := by
      rw [Written.entry_cells (hw.contents c block hb) (by rwa [block.length_contents]),
        ← hw.value?_eq hb, Heap.value?, hb, Option.bind_some, hv]
      rfl
    exact ⟨.refl _, face v, List.mem_singleton.mpr hentry.symm,
      he.obstructs (hleads v (Block.mem_stored_of_value? hv)) hobstructs⟩

/-- Reading all cells of a block. -/
theorem reads_toList (he : l.ExactBut b n) (hl : l.Sound) (hw : l.heap.Recorded l.written)
    {c m : Nat} (hc : .block c m ∈ Owner.refs l.owners) :
    l.heap.Reads b (l.written.cells.entries c) (List.map face)
      ((Pointer.cells c m).toList l.heap) := by
  have st : Stage l l.heap l.owners l.written := Stage.start hl hw
  obtain ⟨block, hb, rfl⟩ := st.exists_block (Ledger.mem_refs_of_owned hc)
  have hleads : ∀ v ∈ block.stored, l.heap.LeadsFrom v := fun _ => hl.leads_stored hb
  have hentries : l.written.cells.entries c = facesOf block.contents := hw.displays c block hb
  have hgives := (mirrors_readOn (r := {}) block.size 0 [] (Nat.zero_add _) hc
    (st.reown (zero_add _).symm)).ends_view (b := l.written.cells.entries c) rfl
  have hleaves := (Heap.Acquired.nil l.heap).ends_readOn hb (n := block.size) (i := 0) hleads
    (Nat.zero_add _).le
  have hstops := Heap.Acquired.ends_readOn_obstructs hb (n := block.size) (i := 0) hleads
    (Nat.zero_add _).le (.nil l.heap)
  rw [Pointer.toList_eq]
  refine .of_ends ((hgives.and (hleaves.and hstops)).mono ?_ ?_)
  · rintro vs g ⟨hvs, ha, -⟩
    refine ⟨hvs, fun d hd => ?_⟩
    obtain ⟨v, hv, rfl⟩ := List.mem_map.mp hd
    exact he.not_denotes_of_acquired ha (List.mem_reverse.mpr hv)
  · rintro f g ⟨-, hg, v, hv, hobstructs⟩
    have hface : face v ∈ l.written.cells.entries c := by
      obtain ⟨o, ho, hv⟩ := List.mem_flatMap.mp hv
      rw [hentries]
      refine List.mem_map.mpr ⟨o, ho, ?_⟩
      rw [Option.mem_toList.mp hv, Option.getD_some]
    have hlength : (l.written.cells.entries c).length = block.size := by
      rw [hentries, facesOf, List.length_map, block.length_contents]
    rw [List.length_nil, Nat.zero_add, ← hlength] at hobstructs
    exact ⟨hg.restored, _, hface, he.obstructs (hleads v hv) hobstructs⟩

/-- A value that is no pointer to the block has been acquired. When it takes the place of another in
a cell, the pointers to the block that go with the other are reported. -/
theorem reports_write (he : l.ExactBut b n) {g : Heap V} {v : V} (hne : (face v).denotes b = false)
    (hrun : Heap.acquire .cell v l.heap = (.ok (), g))
    (st : Stage l g ({.value .cell v} + l.owners) l.written) {c m i : Nat}
    (hc : .block c m ∈ Owner.refs l.owners) (hi : i < m) :
    l.Reports ⟨(g.setValue c i (some v)).settle ((l.heap.value? c i).toList.map (.disown .cell)),
      l.owners, l.written⟩ b := by
  obtain ⟨hheld, htold⟩ := Heap.of_acquire b hrun
  obtain ⟨block, hb, rfl⟩ := st.exists_block (Ledger.mem_refs_of_owned (Owner.mem_refs_add _ hc))
  have hvalue : g.value? c i = l.heap.value? c i := by
    have hcontents := Heap.contents?_acquire .cell v l.heap
    rw [hrun] at hcontents
    exact Heap.value?_eq_of_contents? (congrFun hcontents c) i
  -- the value in hand is no owner of the block
  have hhand : Ledger.ownersOf ⟨g, {.value .cell v} + l.owners, l.written⟩ b = l.ownersOf b := by
    have hrefs : Ledger.refs ⟨g, {.value .cell v} + l.owners, l.written⟩ =
        ((Host.ref v).toList : Multiset Ref) + l.refs := by
      rw [Ledger.refs_mk, hheld, Owner.refs_add, Owner.refs_value, add_left_comm]
      rfl
    rcases hr : Host.ref v with - | r <;> rw [hr] at hrefs
    · rw [ownersOf, hrefs, Option.toList_none, Multiset.coe_nil, zero_add, ownersOf]
    · refine Ledger.ownersOf_other hrefs fun hrb => ?_
      have hdenotes := any_ref_block b v
      rw [hr, Option.any_some, decide_eq_true hrb, hne] at hdenotes
      cases hdenotes
  have hwrite := st.step (.write hb hi)
  have hput : Ledger.refs ⟨g.setValue c i (some v),
      Owner.ofValues .cell (g.value? c i).toList + l.owners, l.written.put c i (some v)⟩ =
        Ledger.refs ⟨g, {.value .cell v} + l.owners, l.written⟩ :=
    Ledger.refs_eq_of_held .cell (Heap.held_setValue hb hi (some v))
  rw [hvalue, ← Owner.ofTasks_disown] at hwrite hput
  have hsettle := Heap.reports_settle _ hwrite.sound_now
    ((Moves.expired_iff hwrite.moves st.sound b n).mpr he.expired)
  refine hsettle.trans ?_
  show g.expiries b + _ = l.heap.expiries b + _
  rw [htold, ← hhand, ownersOf, ownersOf, hput]

/-- Writing one cell. -/
theorem writes_store (he : l.ExactBut b n) (hl : l.Sound) (hw : l.heap.Recorded l.written)
    {c m i : Nat} (hc : .block c m ∈ Owner.refs l.owners) (hi : i < m) {v : V}
    (hv : Sourced l.owners v) :
    l.Writes b v c (l.written.cells.put c i (face v)) (Heap.store c i v l.heap) where
  refused hdenotes := by
    obtain ⟨k, hr⟩ := denotes_iff.mp hdenotes
    obtain ⟨j, hshape⟩ := hl.anchored b k ((hv.grounded hl).1 _ hr)
    rw [he.expired] at hshape
    cases hshape
    exact bind_of_error ((Heap.refuses he.expired).acquire .cell v hr)
  stored hne := by
    have st : Stage l l.heap l.owners l.written := Stage.start hl hw
    have hleads : l.heap.LeadsFrom v := fun r hr => hl.leads ((hv.grounded hl).1 r hr)
    rcases hacquire : Heap.acquire .cell v l.heap with ⟨f | ⟨⟩, g⟩
    · have hkept := (Heap.Acquired.nil l.heap).ends_acquire hleads .cell
      rw [hacquire] at hkept
      have hobstructs := (Heap.Acquired.nil l.heap).obstructs hleads hacquire
      refine ends_of_error (bind_of_error hacquire) ⟨hkept.1, ?_⟩
      refine ((he.obstructs hleads hobstructs).resolve_left fun hdenotes => ?_).2
      rw [hdenotes.1] at hne
      cases hne
    · have st₁ : Stage l g ({.value .cell v} + l.owners) l.written := by
        have hends := st.ends_acquire hv .cell
        rwa [hacquire] at hends
      have hends := st.ends_store hc hi hv
      rw [(st₁.installs hacquire hc hi).stored] at hends ⊢
      have hdisplays := hends.recorded_now.displays
      rw [Written.cells_put] at hdisplays
      obtain ⟨block, hblock, -⟩ := hends.exists_block (Ledger.mem_refs_of_owned hc)
      exact ⟨hdisplays, ⟨block, hblock⟩, he.reports_write hne hacquire st₁ hc hi⟩

end ExactBut

/-- Exchanging two cells. -/
theorem displays_swap (hl : l.Sound) (hw : l.heap.Recorded l.written) {c d m k i j : Nat}
    (hc : .block c m ∈ Owner.refs l.owners) (hi : i < m) (hd : .block d k ∈ Owner.refs l.owners)
    (hj : j < k) :
    (l.heap.swap c i d j).Displays ((l.written.cells.put c i (l.written.cells.entry d j)).put d j
      (l.written.cells.entry c i)) := by
  have st : Stage l l.heap l.owners l.written := Stage.start hl hw
  obtain ⟨xs, hxs, rfl, -⟩ := st.exists_entry hc
  obtain ⟨ys, hys, rfl, -⟩ := st.exists_entry hd
  rw [← Written.cells_exchange hxs hi hys hj]
  exact (st.swap hc hi hd hj).recorded_now.displays

/-- One block is frozen, and everything else goes on. -/
structure Freezes (l : Ledger V) (b : BlockId) (n : Nat) : Prop where
  /-- the block is there, with a count of zero and all its cells -/
  there : ∃ block, l.heap.block? b = some block ∧ block.count = 0 ∧ block.size = n
  /-- it counts among the blocks that are there, and the statistics are right -/
  audited : b ∈ l.heap.living ∧ l.heap.Audited
  /-- it was never destroyed -/
  spared : ∀ m, .destroyed m b ∉ l.heap.trace
  /-- it has no more references to give, and takes none back -/
  refuses : l.heap.Refuses b n
  /-- in a cascade every pointer to it that goes is reported, once -/
  reported : ∀ ts os, l.owners = Owner.ofTasks ts + os →
    l.Reports ⟨l.heap.settle ts, os, l.written⟩ b
  /-- every other block has an exact count -/
  counts : ∀ c block, c ≠ b → l.heap.block? c = some block → block.count = l.ownersOf c
  /-- and is there as long as it has owners -/
  lasts : ∀ c, c ≠ b → (l.heap.block? c = none ↔ l.ownersOf c = 0)
  /-- payloads are counted as well -/
  shares : ∀ (p : PayloadId) (payload : Payload V), l.heap.payloads[p]? = some payload →
    payload.shares = l.sharersOf p
  /-- a single cell is read, of the block or of another one -/
  get : ∀ c, .block c 1 ∈ Owner.refs l.owners →
    l.heap.Reads b [l.written.cells.entry c 0] (fun v => [face v]) ((Pointer.cells c 1).get l.heap)
  /-- a cell is read by number -/
  getAt : ∀ c m i, .block c m ∈ Owner.refs l.owners → i < m →
    l.heap.Reads b [l.written.cells.entry c i] (fun v => [face v])
      ((Pointer.cells c m).getAt i l.heap)
  /-- all cells are read -/
  toList : ∀ c m, .block c m ∈ Owner.refs l.owners →
    l.heap.Reads b (l.written.cells.entries c) (List.map face) ((Pointer.cells c m).toList l.heap)
  /-- a single cell is written, through a pointer that stays what it is -/
  set : ∀ c v, .block c 1 ∈ Owner.refs l.owners → Sourced l.owners v →
    ((Pointer.cells c 1).set v l.heap).1.1 = .cells c 1 ∧
      l.Writes b v c (l.written.cells.put c 0 (face v))
        (((Pointer.cells c 1).set v l.heap).1.2, ((Pointer.cells c 1).set v l.heap).2)
  /-- a cell is written by number -/
  setAt : ∀ c m i v, .block c m ∈ Owner.refs l.owners → i < m → Sourced l.owners v →
    l.Writes b v c (l.written.cells.put c i (face v)) ((Pointer.cells c m).setAt i v l.heap)
  /-- two cells are exchanged -/
  swap : ∀ c d, .block c 1 ∈ Owner.refs l.owners → .block d 1 ∈ Owner.refs l.owners →
    ∃ g, (Pointer.cells c 1).swap (.cells d 1) l.heap = (.ok (), g) ∧
      g.Displays ((l.written.cells.put c 0 (l.written.cells.entry d 0)).put d 0
        (l.written.cells.entry c 0))

/-- A sound ledger with exact counts but one freezes the block without a count. -/
theorem ExactBut.freezes (he : l.ExactBut b n) (hl : l.Sound) (hw : l.heap.Recorded l.written)
    (ha : l.heap.Audited) : l.Freezes b n where
  there := Heap.exists_block_of_shape? he.expired
  audited := by
    obtain ⟨block, hb, -⟩ := Heap.exists_block_of_shape? he.expired
    exact ⟨Heap.mem_living.mpr ⟨block, hb⟩, ha⟩
  spared m hm := by
    obtain ⟨block, hb, -⟩ := Heap.exists_block_of_shape? he.expired
    rw [(ha.gone b (Heap.lt_of_block? hb)).mpr ⟨m, hm⟩] at hb
    cases hb
  refuses := Heap.refuses he.expired
  reported ts os howners := by
    have heq : l = ⟨l.heap, Owner.ofTasks ts + os, l.written⟩ := by rw [← howners]
    rw [heq] at hl he
    have hsettle := Heap.reports_settle ts hl he.expired
    rwa [← heq] at hsettle
  counts c block hc hb := (he.others c _ _ hc (Heap.shape?_eq hb)).1
  lasts c hc := by
    refine ⟨fun hb => ownersOf_eq_zero hl (by rw [Heap.shape?, hb]; rfl), fun hzero => ?_⟩
    rcases hb : l.heap.block? c with - | block
    · rfl
    · obtain ⟨hcount, hpos⟩ := he.others c _ _ hc (Heap.shape?_eq hb)
      omega
  shares := hl.shared
  get c hc := by
    rw [Pointer.get_eq]
    exact he.reads_read hl hw hc Nat.one_pos
  getAt c m i hc hi := by
    rw [Pointer.getAt_eq hi]
    exact he.reads_read hl hw hc hi
  toList c m hc := he.reads_toList hl hw hc
  set c v hc hv := by
    rw [Pointer.set_eq rfl]
    exact ⟨rfl, he.writes_store hl hw hc Nat.one_pos hv⟩
  setAt c m i v hc hi hv := by
    rw [Pointer.setAt_eq hi]
    exact he.writes_store hl hw hc hi hv
  swap c d hc hd := ⟨_, rfl, displays_swap hl hw hc Nat.one_pos hd Nat.one_pos⟩

end Ledger
end
end CountedCells

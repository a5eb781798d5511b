import CountedCells.Proofs.Cascade
import CountedCells.Proofs.Runs

/-!
# Order: every release sets off an orderly cascade

Whatever is released in a session that a steady run reaches, what follows is `Orderly`: it comes to
an end, no block is destroyed twice, each block goes in one piece before any of its values is given
back, the values go in the order of the cells, each with everything that it sets free before the
next, and the statistics go down by what was destroyed.

There are four kinds of releases: a handle is dropped, a raw block gives back a reference, a value
is dropped or disowned, and a cell that is written gives back what it held
(`Reached.releases_orderly`). They are all told by lists of tasks, and so are the releases that
happen while a command runs; those set out from a ledger that moves have led to.
-/

namespace CountedCells

open Attempt Relation

variable {V : Type} [Host V]

/-! ## One task at a time -/

/-- The first task is carried out, and what it leads to is put in front of the others. -/
inductive Task.Step : List (Task V) × Heap V → List (Task V) × Heap V → Prop where
  /-- there is a first task -/
  | next {t : Task V} {ts : List (Task V)} {h : Heap V} :
      Step (t :: ts, h) ((t.carryOut h).1 ++ ts, (t.carryOut h).2)

/-- No heap, however its blocks point to each other, lets tasks go on for ever. -/
theorem Task.wellFounded_step : WellFounded (Function.swap (Task.Step (V := V))) := by
  let weigh (x : List (Task V) × Heap V) : Nat := Task.weights x.1 + x.2.weight
  refine Subrelation.wf ?_ (measure weigh).wf
  rintro - - @⟨t, ts, h⟩
  have hless := t.weight_carryOut_lt h
  show Task.weights ((t.carryOut h).1 ++ ts) + (t.carryOut h).2.weight <
    Task.weights (t :: ts) + h.weight
  simp only [Task.weights, total_append, total_cons] at hless ⊢
  omega

/-- Carrying out one task after the other leads to the end. -/
theorem Heap.steps_settle (ts : List (Task V)) (h : Heap V) :
    ReflTransGen Task.Step (ts, h) ([], h.settle ts) := by
  fun_induction Heap.settle ts h with
  | case1 h => exact .refl
  | case2 h t ts ih => exact .head .next ih

/-! ## Orderly cascades -/

/-- What is reported when tasks are carried out, and which blocks are destroyed, as it should be. -/
structure Orderly (h : Heap V) (ts : List (Task V)) (es : List (Event V)) (bs : List BlockId)
    (h' : Heap V) : Prop where
  /-- each task is carried out with everything that it leads to before the next one -/
  cascade : Cascade h ts es bs h'
  /-- carrying out one task after the other leads to an end -/
  ends : ReflTransGen Task.Step (ts, h) ([], h')
  /-- and there is no way to go on for ever -/
  finite : Acc (Function.swap Task.Step) (ts, h)
  /-- this is what the trace has got in addition -/
  trace : h'.trace = es.reverse ++ h.trace
  /-- no block is destroyed twice -/
  once : bs.Nodup
  /-- the blocks that are destroyed were there, and are gone -/
  gone : ∀ b, b ∈ bs ↔ h.block? b ≠ none ∧ h'.block? b = none
  /-- each of them is reported, with its number of cells, and nothing else is -/
  reported : Event.losses es = bs.map fun b => (h.sizeAt b, b)
  /-- a block is destroyed in one piece, and then its values are carried out in order -/
  destroys : ∀ b ∈ bs, Cascade.Destroys h es b
  /-- after a block was reported, the values of its set cells are reported one by one, in order,
  each with what it sets free -/
  turns : ∀ b ∈ bs, ∀ block, h.block? b = some block →
    ∃ (before after : List (Event V)) (turns : List (V × Stats × List (Event V))),
      turns.map Prod.fst = block.stored ∧
      es = before ++ .destroyed block.size b ::
        (turns.flatMap (fun turn => .disowned .cell turn.1 turn.2.1 :: turn.2.2) ++ after)
  /-- whenever a value is reported, the statistics have gone down by what was destroyed before -/
  told : h.stats.Told es
  /-- in the end they have gone down by the cells of the blocks that were destroyed -/
  cells : h'.stats.liveCells + (bs.map h.sizeAt).sum = h.stats.liveCells
  /-- and by their number -/
  blocks : h'.stats.liveBlocks + bs.length = h.stats.liveBlocks

/-- With exact counts and statistics, pending tasks are carried out in order. -/
theorem Heap.orderly_settle [Faced V] (ts : List (Task V)) {h : Heap V} {os : Multiset (Owner V)}
    {w : Written V} (hl : Ledger.Sound ⟨h, Owner.ofTasks ts + os, w⟩)
    (he : Ledger.Exact ⟨h, Owner.ofTasks ts + os, w⟩) (ha : h.Accounted) :
    ∃ es bs, Orderly h ts es bs (h.settle ts) := by
  obtain ⟨es, bs, hc⟩ := Heap.cascade_settle ts hl he
  have hlowered := hc.lowered ha
  have hcells : (Event.losses es).map Prod.fst = bs.map h.sizeAt := by
    rw [hc.losses, List.map_map]
    rfl
  have hblocks : (Event.losses es).length = bs.length := by
    rw [hc.losses, List.length_map]
  refine ⟨es, bs, hc, h.steps_settle ts, Task.wellFounded_step.apply _, hc.trace, hc.loses.once,
    hc.loses.mem_iff, hc.losses, fun b hb => hc.destroys hb, fun b hb block hblock => ?_,
    hc.told ha, hcells ▸ hlowered.cells, hblocks ▸ hlowered.blocks⟩
  obtain ⟨g, g', last, before, inner, after, bs', -, -, hcontents, hinner, hes⟩ := hc.destroys hb
  obtain ⟨turns, hturns, rfl⟩ := hinner.turns
  rw [Heap.contents?_eq hblock, Option.some_inj] at hcontents
  refine ⟨before, after, turns, ?_, ?_⟩
  · rw [hturns, Block.stored, Block.stored, hcontents]
  · rw [hes, ← last.length_contents, ← block.length_contents, hcontents]

/-! ## Releases -/

/-- Taking references changes no contents. -/
theorem Heap.contents?_acquire (holder : Holder) (v : V) (h : Heap V) :
    (Heap.acquire holder v h).2.contents? = h.contents? := by
  have hcopy : (Heap.copy v h).2.contents? = h.contents? := by
    rw [Heap.copy]
    rcases Host.ref v with - | (⟨b, n⟩ | p)
    · rfl
    · show (Heap.retainOr (.abandoned b) b h).2.contents? = h.contents?
      rcases hrun : Heap.retainOr (.abandoned b) b h with ⟨e | u, h₁⟩
      · obtain ⟨-, -, rfl⟩ | ⟨-, -, rfl⟩ := Heap.retainOr_eq_error hrun
        · funext b'
          rw [contents?, block?_touch, contents?]
        · rfl
      · obtain ⟨-, -, rfl⟩ := Heap.retainOr_eq_ok hrun
        exact contents?_setCount h b _
    · rfl
  rcases hrun : Heap.copy v h with ⟨f | u, h₁⟩
  · rw [hrun] at hcopy
    rw [Heap.acquire, bind_of_error hrun]
    exact hcopy
  · rw [hrun] at hcopy
    rw [Heap.acquire, bind_of_ok hrun]
    exact hcopy

omit [Host V] in
/-- What a cell holds is a matter of contents. -/
theorem Heap.value?_eq_of_contents? {h h' : Heap V} {b : BlockId}
    (hb : h'.contents? b = h.contents? b) (i : Nat) : h'.value? b i = h.value? b i := by
  have hvalue : ∀ g : Heap V, g.value? b i = (g.contents? b).bind fun vs => vs[i]?.join := by
    intro g
    rw [value?, contents?]
    rcases hg : g.block? b with - | block
    · rfl
    · exact block.value?_eq i
  rw [hvalue, hvalue, hb]

/-- A cell that is written gives back what it held. -/
theorem Heap.replace_eq {h : Heap V} {b : BlockId} {block : Block V}
    (hb : h.block? b = some block) {i : Nat} (hi : i < block.size) (v : V) :
    h.replace b i v =
      (h.setValue b i (some v)).settle ((h.value? b i).toList.map (.disown .cell)) := by
  rw [replace]
  rcases h.value? b i with - | previous
  · rw [touch_eq hb hi]
    exact (settle_nil _).symm
  · rfl

section

variable [Faced V]

/-- A value that somebody has can be stored in any cell, and what the cell held goes in order. Only
a value that points to a crowded block cannot be stored, and then nothing happens. -/
theorem Stage.orderly_store {l : Ledger V} {h : Heap V} {os : Multiset (Owner V)} {w : Written V}
    (st : Stage l h os w) (he : l.Exact) (ha : l.heap.Accounted) {b : BlockId} {block : Block V}
    (hb : h.block? b = some block) {i : Nat} (hi : i < block.size) {v : V}
    (hv : Ledger.Has ⟨h, os, w⟩ v) :
    (∃ h₁ h', Heap.acquire .cell v h = (.ok (), h₁) ∧ h₁.contents? = h.contents? ∧
      Heap.store b i v h = (.ok (), h') ∧
      ∃ es bs, Orderly (h₁.setValue b i (some v))
        ((h.value? b i).toList.map (.disown .cell)) es bs h') ∨
    ∃ c n, Host.ref v = some (.block c n) ∧ h.Crowded c ∧
      Heap.store b i v h = (.error (.overflow c), h) := by
  have hcopy := st.ends_copy_of_grounded (fun r => Ledger.mem_refs_of_has hv)
    (st.sound_now.backed v hv)
  have hacquire : Ends (Heap.acquire .cell v h)
      (fun _ h' => Stage l h' ({.value .cell v} + os) w)
      (Stops l os w fun f => l.Blames (.fault f)) :=
    hcopy.bind fun _ _ st' => ends_update (st'.report .cell)
  have hcontents := Heap.contents?_acquire .cell v h
  rcases hrun : Heap.acquire .cell v h with ⟨f | u, h₁⟩
  · rw [hrun] at hacquire
    obtain ⟨-, -, -, hblames⟩ := hacquire
    have hstore : Heap.store b i v h = (.error f, h₁) := bind_of_error hrun
    obtain ⟨c, n, href, ⟨-, rfl, -⟩ | ⟨hcrowded, rfl, rfl⟩⟩ :=
      Heap.copy_eq_error (Heap.acquire_eq_error hrun)
    · exact (he.isOverflow hblames).elim
    · exact .inr ⟨c, n, href, hcrowded, hstore⟩
  · rw [hrun] at hacquire hcontents
    have st₁ : Stage l h₁ ({.value .cell v} + os) w := hacquire
    -- the block is still there, only its count may be another
    obtain ⟨block₁, hb₁, hsame⟩ : ∃ block₁, h₁.block? b = some block₁ ∧
        block₁.contents = block.contents := by
      have hthere : h₁.contents? b = some block.contents := by
        rw [hcontents, Heap.contents?_eq hb]
      exact Option.map_eq_some_iff.mp hthere
    have hi₁ : i < block₁.size := by
      rwa [← block₁.length_contents, hsame, block.length_contents]
    have st₂ := st₁.step (.write hb₁ hi₁)
    have hvalue := Heap.value?_eq_of_contents? (congrFun hcontents b) i
    rw [hvalue, ← Owner.ofTasks_disown] at st₂
    have hstore : Heap.store b i v h = (.ok (), h₁.replace b i v) := bind_of_ok hrun
    refine .inl ⟨h₁, _, rfl, hcontents, hstore, ?_⟩
    rw [Heap.replace_eq hb₁ hi₁, hvalue]
    exact Heap.orderly_settle _ st₂.sound_now (st₂.exact_now he)
      (Moves.keeps Heap.kept_accounted st₂.moves st₂.sound ha)

/-- Whatever owners are given up, they go in an orderly cascade. -/
def Ledger.ReleasesInOrder (l : Ledger V) : Prop :=
  ∀ ts os, l.owners = Owner.ofTasks ts + os → ∃ es bs, Orderly l.heap ts es bs (l.heap.settle ts)

theorem Ledger.Exact.releasesInOrder {l : Ledger V} (he : l.Exact) (hl : l.Sound)
    (ha : l.heap.Accounted) : l.ReleasesInOrder := by
  intro ts os hos
  obtain ⟨h, owners, w⟩ := l
  obtain rfl : owners = Owner.ofTasks ts + os := hos
  exact Heap.orderly_settle ts hl he ha

end

/-! ## Sessions -/

/-- In a session that is reached without setting a count by hand, every release sets off a cascade
that ends and is orderly: when a handle is dropped, when a raw block gives back a reference, when a
value is dropped or disowned, and when a cell is written, unless the new value cannot be copied. The
same holds of all releases while a command runs. -/
theorem Reached.releases_orderly {s : Session Value}
    (hs : Reached Session.stepValue (fun c _ => c.Steady) s) :
    (∀ name p, s.handles.lookup name = some p →
      ∃ es bs, Orderly s.heap (p.ref.toList.map .drop) es bs (s.heap.dropPointer p)) ∧
    (∀ name u, s.raws.lookup name = some u →
      ∃ es bs, Orderly s.heap [.drop (.block u.block u.size)] es bs
        (s.heap.release u.block u.size).2) ∧
    (∀ name v, s.values.lookup name = some v →
      (∃ es bs, Orderly s.heap (Task.dropsOf v) es bs (s.heap.drop v)) ∧
        ∃ es bs, Orderly s.heap [.disown .caller v] es bs (s.heap.disown .caller v)) ∧
    (∀ b block i v, s.heap.block? b = some block → i < block.size → s.Has v →
      (∃ h₁ h', Heap.acquire .cell v s.heap = (.ok (), h₁) ∧ h₁.contents? = s.heap.contents? ∧
        Heap.store b i v s.heap = (.ok (), h') ∧
        ∃ es bs, Orderly (h₁.setValue b i (some v))
          ((s.heap.value? b i).toList.map (.disown .cell)) es bs h') ∨
      ∃ c n, v.ref = some (.block c n) ∧ s.heap.Crowded c ∧
        Heap.store b i v s.heap = (.error (.overflow c), s.heap)) ∧
    ∀ c : ValueCommand, c.Steady → s.Throughout Ledger.ReleasesInOrder (s.stepValue c).2 := by
  obtain ⟨-, w, hw, he, -⟩ := hs.exact
  have horderly (l : Ledger Value) (hmoves : Moves (s.ledger w) l) : l.ReleasesInOrder :=
    Ledger.Exact.releasesInOrder (Moves.tally countRule_exactly hmoves hw.sound he)
      (Moves.sound hmoves hw.sound) (Moves.keeps Heap.kept_accounted hmoves hw.sound hw.accounted)
  -- what is released is an owner, next to the others
  have hreleased (ts : List (Task Value)) (os : Multiset (Owner Value))
      (howners : s.owners = Owner.ofTasks ts + os) :
      ∃ es bs, Orderly s.heap ts es bs (s.heap.settle ts) :=
    horderly (s.ledger w) .refl ts os howners
  have hvalue (name : String) (v : Value) (hv : s.values.lookup name = some v) :
      ∃ os, s.owners = {.value .caller v} + os := by
    have howners := (Registers.owners_removeVariable s.toRegisters name).symm
    rw [hv, Option.elim_some] at howners
    exact ⟨_, howners⟩
  refine ⟨fun name p hp => ?_, fun name u hu => ?_, fun name v hv => ⟨?_, ?_⟩,
    fun b block i v hb hi hv => ?_, fun c hc => ?_⟩
  · have howners := (Registers.owners_removeHandle s.toRegisters name).symm
    rw [hp, Option.elim_some, ← Owner.ofTasks_drop_ref] at howners
    exact hreleased _ _ howners
  · have howners := Registers.owners_released hu (hw.proper.owned_pos hu)
    rw [Heap.release_eq (hw.count_raw_pos he hu)]
    exact hreleased [.drop (.block u.block u.size)] _ howners
  · -- the value is put down first, and then what it owned is dropped
    obtain ⟨os, hos⟩ := hvalue name v hv
    have hpart : Move (s.ledger w) ⟨s.heap, Owner.ofTasks (Task.dropsOf v) + os, w⟩ := by
      rw [Owner.ofTasks_dropsOf, Session.ledger, hos]
      exact .part
    exact horderly _ (.single hpart) _ os rfl
  · obtain ⟨os, hos⟩ := hvalue name v hv
    exact hreleased [.disown .caller v] os hos
  · exact (Stage.start hw.sound hw.recorded).orderly_store he hw.accounted hb hi hv.ledger
  · obtain ⟨w', -, hmoves⟩ := hw.step hc (hw.sensible he c)
    exact .of_moves hmoves horderly

/-- A block of three cells holds a pointer twice, once in a list. When its handle is dropped, it
goes, and the block behind the pointer goes when the list does. -/
theorem nested_pointer_goes_in_order :
    let s := Session.runValue [.common (.allocate "a" (.int 5)),
      .common (.allocateValues "b" [.handle "a", .int 7, .list [.handle "a"]]),
      .common (.drop "a")] (.empty (.ofMemory 100))
    s.heap.stats = ⟨4, 2⟩ ∧ ∃ es bs, bs.length = 2 ∧
      Orderly s.heap [.drop (.block 1 3)] es bs (s.heap.dropPointer (.cells 1 3)) := by
  intro s
  have hs : Reached Session.stepValue (fun c _ => c.Steady) s :=
    (Reached.start _).runBy (by simp [ValueCommand.Steady, Command.Steady])
  have hstats : s.heap.stats = ⟨4, 2⟩ := by decide +kernel
  have hend : (s.heap.dropPointer (.cells 1 3)).stats = ⟨0, 0⟩ := by decide +kernel
  obtain ⟨es, bs, horderly⟩ := hs.releases_orderly.1 "b" (.cells 1 3) (by decide +kernel)
  refine ⟨hstats, es, bs, ?_, horderly⟩
  have hblocks := horderly.blocks
  rw [hend, hstats] at hblocks
  simpa using hblocks

end CountedCells

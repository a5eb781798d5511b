import CountedCells.Proofs.Cascade
import CountedCells.Proofs.Hosts

/-!
# Chronicle: the statistics and the trace say the same

The statistics are kept in two places, where a block is made and where one is destroyed, and both
times an event tells of it. So the trace alone says what is live: `Stats.ofTrace` replays the events
from the beginning. A moment in the past is an end of the trace, since the latest events come first.

In every careful run the trace is a proper account (`Heap.Audited`). The statistics are the blocks
that are there and all their cells, and they are what the events come to. Each block is reported as
made once, and as destroyed at most once, later and with the same number of cells, and at that
moment the statistics cover what is taken out of them; what is added to them leaves 64-bit counts.
Whoever is told that a reference is taken or given back sees the statistics of that moment. A block
whose count is zero is still there and still counts.

There are only four things that a move can do to all this: nothing, a remark in the trace, a block
more, or a block less (`Heap.Notes`).
-/

namespace CountedCells

variable {V : Type}

/-! ## What events tell -/

/-- The block that an event reports made, with its number of cells. -/
def Event.allocated? : Event V → Option (Nat × BlockId)
  | .allocated n b => some (n, b)
  | _ => none

/-- The blocks that are reported made, in the order of the events. -/
def Event.gains (es : List (Event V)) : List (Nat × BlockId) := es.filterMap Event.allocated?

/-- The statistics after one more event. -/
def Stats.after (e : Event V) (s : Stats) : Stats :=
  match e with
  | .allocated n _ => ⟨s.liveCells + n, s.liveBlocks + 1⟩
  | .destroyed n _ => ⟨s.liveCells - n, s.liveBlocks - 1⟩
  | _ => s

/-- The statistics that events come to, the latest first. -/
def Stats.ofTrace (es : List (Event V)) : Stats := es.foldr Stats.after {}

/-- The statistics are what was made, less what was destroyed. -/
structure Stats.Balances (s : Stats) (es : List (Event V)) : Prop where
  /-- by the cells of the blocks -/
  cells : s.liveCells + ((Event.losses es).map Prod.fst).sum = ((Event.gains es).map Prod.fst).sum
  /-- by the number of blocks -/
  blocks : s.liveBlocks + (Event.losses es).length = (Event.gains es).length

/-- The event can follow those before it. A block is made once, of at least one cell, and all live
cells are a 64-bit count then. It is destroyed after it was made, with the same number of cells and
only once, and the statistics cover it. When a reference to a value is taken or given back, the
statistics that are told with it are those of the moment. -/
def Event.Fits (e : Event V) (before : List (Event V)) : Prop :=
  match e with
  | .allocated n b => 0 < n ∧ (∀ m, .allocated m b ∉ before) ∧
      (Stats.ofTrace before).liveCells + n < Config.countRange
  | .destroyed n b => .allocated n b ∈ before ∧ (∀ m, .destroyed m b ∉ before) ∧
      n ≤ (Stats.ofTrace before).liveCells ∧ 0 < (Stats.ofTrace before).liveBlocks
  | .acquired _ _ st | .disowned _ _ st => st = Stats.ofTrace before
  | _ => True

theorem Event.mem_gains {es : List (Event V)} {n : Nat} {b : BlockId} :
    (n, b) ∈ Event.gains es ↔ .allocated n b ∈ es := by
  rw [gains, List.mem_filterMap]
  constructor
  · rintro ⟨e, he, heq⟩
    cases e with
    | allocated m c =>
      cases heq
      exact he
    | _ => cases heq
  · exact fun he => ⟨_, he, rfl⟩

theorem Event.mem_losses {es : List (Event V)} {n : Nat} {b : BlockId} :
    (n, b) ∈ Event.losses es ↔ .destroyed n b ∈ es := by
  rw [losses, List.mem_filterMap]
  constructor
  · rintro ⟨e, he, heq⟩
    cases e with
    | destroyed m c =>
      cases heq
      exact he
    | _ => cases heq
  · exact fun he => ⟨_, he, rfl⟩

/-- Where every event fits, nothing is taken out of the statistics that is not in them. -/
theorem Stats.balances_ofTrace {es : List (Event V)}
    (hfits : ∀ e before, e :: before <:+ es → e.Fits before) : (Stats.ofTrace es).Balances es := by
  induction es with
  | nil => exact ⟨rfl, rfl⟩
  | cons e es ih =>
    have hbefore := ih fun e' before hsuffix =>
      hfits e' before (hsuffix.trans (List.suffix_cons e es))
    have hfit := hfits e es List.suffix_rfl
    obtain ⟨hcells, hblocks⟩ := hbefore
    cases e with
    | allocated n b =>
      constructor
      · show (Stats.ofTrace es).liveCells + n + _ = n + ((Event.gains es).map Prod.fst).sum
        rw [← hcells]
        exact Nat.add_right_comm _ _ _ |>.trans (Nat.add_comm _ _)
      · show (Stats.ofTrace es).liveBlocks + 1 + _ = (Event.gains es).length + 1
        rw [← hblocks]
        exact Nat.add_right_comm _ _ _
    | destroyed n b =>
      obtain ⟨-, -, hn, hpos⟩ := hfit
      constructor
      · show (Stats.ofTrace es).liveCells - n + (n + ((Event.losses es).map Prod.fst).sum) = _
        rw [← Nat.add_assoc, Nat.sub_add_cancel hn]
        exact hcells
      · show (Stats.ofTrace es).liveBlocks - 1 + ((Event.losses es).length + 1) = _
        rw [Nat.add_comm _ 1, ← Nat.add_assoc, Nat.sub_add_cancel hpos]
        exact hblocks
    | _ => exact ⟨hcells, hblocks⟩

/-- Where every event fits, no block is destroyed twice. -/
theorem Event.nodup_losses {es : List (Event V)}
    (hfits : ∀ e before, e :: before <:+ es → e.Fits before) :
    ((Event.losses es).map Prod.snd).Nodup := by
  induction es with
  | nil => exact List.nodup_nil
  | cons e es ih =>
    have hbefore := ih fun e' before hsuffix =>
      hfits e' before (hsuffix.trans (List.suffix_cons e es))
    have hfit := hfits e es List.suffix_rfl
    cases e with
    | destroyed n b =>
      refine List.nodup_cons.mpr ⟨?_, hbefore⟩
      intro hmem
      obtain ⟨⟨m, c⟩, hloss, rfl⟩ := List.mem_map.mp hmem
      exact hfit.2.1 m (Event.mem_losses.mp hloss)
    | _ => exact hbefore

/-! ## The account of a heap -/

namespace Heap

/-- The trace is an account of the blocks. -/
structure Chronicled (h : Heap V) : Prop where
  /-- the statistics are the number of the blocks that are there, and of all their cells -/
  accounted : h.Accounted
  /-- they are what the events come to -/
  replayed : h.stats = Stats.ofTrace h.trace
  /-- every event can follow those before it -/
  fits : ∀ e before, e :: before <:+ h.trace → e.Fits before
  /-- every block is reported as made exactly once, in the order of the numbers -/
  made : (Event.gains h.trace).map Prod.snd = (List.range h.blocks.length).reverse
  /-- a block that is there has the number of cells that was reported -/
  sized : ∀ b block, h.block? b = some block → .allocated block.size b ∈ h.trace
  /-- the blocks that are not there any more are those that are reported as destroyed -/
  gone : ∀ b, b < h.blocks.length → (h.block? b = none ↔ ∃ n, .destroyed n b ∈ h.trace)

/-- The account is complete: at every moment in the past as well, the statistics were what had been
made less what had been destroyed, and no block is destroyed twice. -/
structure Audited (h : Heap V) : Prop extends h.Chronicled where
  /-- at every moment the statistics balance -/
  balances : ∀ es, es <:+ h.trace → (Stats.ofTrace es).Balances es
  /-- no block is reported as destroyed twice -/
  once : ((Event.losses h.trace).map Prod.snd).Nodup

theorem Chronicled.audited {h : Heap V} (hc : h.Chronicled) : h.Audited where
  toChronicled := hc
  balances _ hes := Stats.balances_ofTrace fun e before hsuffix =>
    hc.fits e before (hsuffix.trans hes)
  once := Event.nodup_losses hc.fits

/-! ## What a move does to the account -/

/-- Two heaps have the same blocks as far as the statistics are concerned. -/
structure SameSizes (h h' : Heap V) : Prop where
  /-- as many numbers have been used -/
  length : h'.blocks.length = h.blocks.length
  /-- the same blocks are there, with as many cells -/
  size : ∀ b, (h'.block? b).map Block.size = (h.block? b).map Block.size
  /-- the statistics are the same -/
  stats : h'.stats = h.stats

namespace SameSizes

variable {h h' h'' : Heap V}

theorem of_blocks (hblocks : h'.blocks = h.blocks) (hstats : h'.stats = h.stats) :
    h.SameSizes h' :=
  ⟨by rw [hblocks], fun b => by rw [block?, block?, hblocks], hstats⟩

theorem trans (hs : h.SameSizes h') (hs' : h'.SameSizes h'') : h.SameSizes h'' :=
  ⟨hs'.length.trans hs.length, fun b => (hs'.size b).trans (hs.size b), hs'.stats.trans hs.stats⟩

theorem setCount (h : Heap V) (b : BlockId) (n : Nat) : h.SameSizes (h.setCount b n) := by
  refine ⟨length_setCount h b n, fun c => ?_, rfl⟩
  rw [block?_setCount]
  split
  · cases h.block? c <;> rfl
  · rfl

theorem setValue (h : Heap V) (b : BlockId) (i : Nat) (o : Option V) :
    h.SameSizes (h.setValue b i o) := by
  refine ⟨length_setValue h b i o, fun c => ?_, rfl⟩
  rw [block?_setValue]
  split
  · cases h.block? c <;> simp
  · rfl

theorem block?_eq_none_iff (hs : h.SameSizes h') (b : BlockId) :
    h'.block? b = none ↔ h.block? b = none := by
  rw [← Option.map_eq_none_iff (f := Block.size), hs.size, Option.map_eq_none_iff]

theorem exists_block (hs : h.SameSizes h') {b : BlockId} {block : Block V}
    (hb : h'.block? b = some block) : ∃ before, h.block? b = some before ∧
      before.size = block.size := by
  have hsize := hs.size b
  rw [hb] at hsize
  exact Option.map_eq_some_iff.mp hsize.symm

end SameSizes

end Heap

/-- The event tells of no block that is made or destroyed, and of no other statistics. -/
def Event.IsRemark (st : Stats) : Event V → Prop
  | .allocated _ _ | .destroyed _ _ => False
  | .acquired _ _ st' | .disowned _ _ st' => st' = st
  | _ => True

namespace Heap

/-- What can happen to the blocks, the statistics and the trace in one move. -/
inductive Notes (h : Heap V) : Heap V → Prop where
  /-- nothing that the account is about -/
  | quiet {h' : Heap V} (hs : h.SameSizes h') (htrace : h'.trace = h.trace) : Notes h h'
  /-- something is told -/
  | remark {h' : Heap V} {e : Event V} (hs : h.SameSizes h') (he : e.IsRemark h.stats)
      (htrace : h'.trace = e :: h.trace) : Notes h h'
  /-- a block is made, where there is room for it -/
  | addBlock {n : Nat} (hn : h.refusal n = none) : Notes h (h.addBlock n)
  /-- a block is destroyed, with its number of cells -/
  | destroy {b : BlockId} {block : Block V} (hb : h.block? b = some block) :
      Notes h (h.destroy b block.size)

theorem Notes.log (h : Heap V) {e : Event V} (he : e.IsRemark h.stats) : h.Notes (h.log e) :=
  .remark (.of_blocks rfl rfl) he rfl

end Heap

section

variable [Host V]

/-- A task of a sound ledger finds the block that it was told. -/
theorem Task.notes [Faced V] {h : Heap V} {os : Multiset (Owner V)} {w : Written V} (t : Task V)
    (hl : Ledger.Sound ⟨h, {Owner.ofTask t} + os, w⟩) : h.Notes (t.carryOut h).2 := by
  cases t with
  | disown holder v => exact .log h rfl
  | drop r =>
    cases r with
    | block b n =>
      obtain ⟨c, hc⟩ := hl.anchored b n (Ledger.mem_refs_head _)
      obtain ⟨block, hb, -, rfl⟩ := Heap.exists_block_of_shape? hc
      simp only [carryOut, Heap.expect_eq hb, hb]
      split
      · exact .log h trivial
      · exact .destroy hb
      · exact .quiet (.setCount h b _) rfl
    | payload p =>
      simp only [carryOut]
      split
      · exact .quiet (.of_blocks rfl rfl) rfl
      · split <;> exact .quiet (.of_blocks rfl rfl) rfl

/-- Every move of a sound ledger is one of the four. -/
theorem Move.notes [Faced V] {l l' : Ledger V} (m : Move l l') (hl : l.Sound) :
    l.heap.Notes l'.heap := by
  cases m with
  | allocate hn => exact .addBlock hn
  | @take h os w r hr hlive hroom =>
    cases r with
    | block b n => exact .quiet (.setCount h b _) rfl
    | payload p => exact .quiet (.of_blocks rfl rfl) rfl
  | report holder => exact .log _ rfl
  | write hb hi => exact .quiet (.setValue _ _ _ _) rfl
  | swap hb hi hc hj =>
    simp only [Heap.swap_eq hb hi hc hj]
    exact .quiet ((Heap.SameSizes.setValue _ _ _ _).trans (.setValue _ _ _ _)) rfl
  | task t => exact t.notes hl
  | @note h os w e he =>
    refine .log h ?_
    cases e with
    | upgraded b => trivial
    | rebuilt b n => trivial
    | _ => exact he.elim
  | unsettle hs => exact .remark (e := .unstable) (.of_blocks rfl rfl) trivial rfl
  | adopt _ | part | share _ _ | lapse _ | configure _ => exact .quiet (.of_blocks rfl rfl) rfl

end

namespace Heap

/-! ## The account is kept -/

namespace Chronicled

variable {h h' : Heap V}

theorem empty (system : System) : (Heap.empty system : Heap V).Chronicled where
  accounted := rfl
  replayed := rfl
  fits _ _ hsuffix := absurd (List.suffix_nil.mp hsuffix) (List.cons_ne_nil _ _)
  made := rfl
  sized := nofun
  gone := nofun

/-- Only blocks that were made have a number. -/
theorem lt_of_allocated (hc : h.Chronicled) {n : Nat} {b : BlockId}
    (hmem : .allocated n b ∈ h.trace) : b < h.blocks.length := by
  have hb := List.mem_map_of_mem (f := Prod.snd) (Event.mem_gains.mpr hmem)
  rwa [hc.made, List.mem_reverse, List.mem_range] at hb

/-- Whatever was destroyed had been made. -/
theorem lt_of_destroyed (hc : h.Chronicled) {n : Nat} {b : BlockId}
    (hmem : .destroyed n b ∈ h.trace) : b < h.blocks.length := by
  obtain ⟨later, before, htrace⟩ := List.append_of_mem hmem
  have hsuffix : .destroyed n b :: before <:+ h.trace := ⟨later, htrace.symm⟩
  have hmade := (hc.fits _ _ hsuffix).1
  exact hc.lt_of_allocated (hsuffix.subset (List.mem_cons_of_mem _ hmade))

/-- An event that fits takes its place in front of the others. -/
theorem fits_cons (hc : h.Chronicled) {e : Event V} (he : e.Fits h.trace) :
    ∀ e' before, e' :: before <:+ e :: h.trace → e'.Fits before := by
  intro e' before hsuffix
  rcases List.suffix_cons_iff.mp hsuffix with heq | hsuffix
  · cases heq
    exact he
  · exact hc.fits e' before hsuffix

/-- What has the same blocks and the same account. -/
theorem quiet (hc : h.Chronicled) (hs : h.SameSizes h') (htrace : h'.trace = h.trace) :
    h'.Chronicled where
  accounted := hc.accounted.of_size_eq hs.stats hs.length hs.size
  replayed := by rw [hs.stats, hc.replayed, htrace]
  fits := by
    rw [htrace]
    exact hc.fits
  made := by rw [htrace, hc.made, hs.length]
  sized b block hb := by
    obtain ⟨before, hbefore, hsize⟩ := hs.exists_block hb
    rw [← hsize, htrace]
    exact hc.sized b before hbefore
  gone b hb := by
    rw [hs.length] at hb
    rw [hs.block?_eq_none_iff, hc.gone b hb, htrace]

/-- A remark adds nothing to what the events come to. -/
theorem log (hc : h.Chronicled) {e : Event V} (he : e.IsRemark h.stats) : (h.log e).Chronicled := by
  have hfits : e.Fits h.trace := by
    cases e with
    | acquired holder v st | disowned holder v st =>
      exact (show st = h.stats from he).trans hc.replayed
    | allocated _ _ | destroyed _ _ => exact he.elim
    | _ => trivial
  have hafter : Stats.ofTrace (e :: h.trace) = Stats.ofTrace h.trace := by
    cases e with
    | allocated _ _ | destroyed _ _ => exact he.elim
    | _ => rfl
  have hgains : Event.gains (e :: h.trace) = Event.gains h.trace := by
    cases e with
    | allocated _ _ => exact he.elim
    | _ => rfl
  have hdestroyed : ∀ n b, .destroyed n b ∈ e :: h.trace ↔ .destroyed n b ∈ h.trace := by
    intro n b
    refine ⟨fun hmem => (List.mem_cons.mp hmem).resolve_left ?_, List.mem_cons_of_mem e⟩
    rintro rfl
    exact he
  refine ⟨hc.accounted, hc.replayed.trans hafter.symm, hc.fits_cons hfits,
    (congrArg _ hgains).trans hc.made, fun b block hb => ?_, fun b hb => ?_⟩
  · exact List.mem_cons_of_mem e (hc.sized b block hb)
  · rw [block?_log, hc.gone b hb]
    exact exists_congr fun n => (hdestroyed n b).symm

theorem addBlock (hc : h.Chronicled) {n : Nat} (hn : h.refusal n = none) :
    (h.addBlock n).Chronicled where
  accounted := hc.accounted.addBlock (pos_of_refusal hn)
  replayed := by
    show (⟨h.stats.liveCells + n, h.stats.liveBlocks + 1⟩ : Stats) = _
    rw [hc.replayed]
    rfl
  fits := hc.fits_cons ⟨pos_of_refusal hn, fun _ hmem => Nat.lt_irrefl _ (hc.lt_of_allocated hmem),
    hc.replayed ▸ room_of_refusal hn⟩
  made := by
    have hlength : (h.addBlock n).blocks.length = h.blocks.length + 1 := by simp [Heap.addBlock]
    rw [hlength, List.range_succ, List.reverse_append, ← hc.made]
    rfl
  sized b block hb := by
    rw [block?_addBlock] at hb
    split at hb
    · rename_i heq
      cases hb
      rw [heq, Block.size_fresh (pos_of_refusal hn)]
      exact List.mem_cons_self
    · exact List.mem_cons_of_mem _ (hc.sized b block hb)
  gone b hb := by
    have hdestroyed : (∃ m, .destroyed m b ∈ (h.addBlock n).trace) ↔
        ∃ m, .destroyed m b ∈ h.trace := by simp [Heap.addBlock]
    rw [hdestroyed, block?_addBlock]
    split
    · -- the number is fresh, so nothing was told of the block before
      rename_i heq
      constructor
      · intro hnone
        cases hnone
      · rintro ⟨m, hmem⟩
        exact absurd (hc.lt_of_destroyed hmem) (heq ▸ Nat.lt_irrefl _)
    · rename_i hne
      have hlength : b < h.blocks.length + 1 := by simpa [Heap.addBlock] using hb
      exact hc.gone b (Nat.lt_of_le_of_ne (Nat.lt_succ_iff.mp hlength) hne)

theorem destroy (hc : h.Chronicled) {b : BlockId} {block : Block V} (hb : h.block? b = some block) :
    (h.destroy b block.size).Chronicled where
  accounted := hc.accounted.destroy hb
  replayed := by
    show (⟨h.stats.liveCells - block.size, h.stats.liveBlocks - 1⟩ : Stats) = _
    rw [hc.replayed]
    rfl
  fits := by
    obtain ⟨hcells, hblocks⟩ := hc.accounted.covers hb
    refine hc.fits_cons ⟨hc.sized b block hb, fun m hmem => ?_, ?_, ?_⟩
    · have hgone := (hc.gone b (lt_of_block? hb)).mpr ⟨m, hmem⟩
      rw [hb] at hgone
      cases hgone
    · rwa [← hc.replayed]
    · rwa [← hc.replayed]
  made := by
    have hlength : (h.destroy b block.size).blocks.length = h.blocks.length := by
      simp [Heap.destroy]
    rw [hlength, ← hc.made]
    rfl
  sized c other hother := by
    rw [block?_destroy] at hother
    split at hother
    · cases hother
    · exact List.mem_cons_of_mem _ (hc.sized c other hother)
  gone c hlt := by
    have hlt' : c < h.blocks.length := by simpa [Heap.destroy] using hlt
    rw [block?_destroy]
    split
    · rename_i heq
      subst heq
      exact ⟨fun _ => ⟨_, List.mem_cons_self⟩, fun _ => rfl⟩
    · rename_i hne
      rw [hc.gone c hlt']
      refine exists_congr fun n => ⟨List.mem_cons_of_mem _, fun hmem => ?_⟩
      refine (List.mem_cons.mp hmem).resolve_left ?_
      rintro ⟨⟩
      exact hne rfl

/-- One move keeps the account. -/
theorem notes (hc : h.Chronicled) (hn : h.Notes h') : h'.Chronicled := by
  cases hn with
  | quiet hs htrace => exact hc.quiet hs htrace
  | remark hs he htrace => exact (hc.log he).quiet ⟨hs.length, hs.size, hs.stats⟩ htrace
  | addBlock hpos => exact hc.addBlock hpos
  | destroy hb => exact hc.destroy hb

end Chronicled

end Heap

/-! ## Runs -/

theorem lasting_audited [Host V] [Faced V] : Lasting (Heap.Audited (V := V)) where
  start system := (Heap.Chronicled.empty system).audited
  move m hl ha := (ha.notes (m.notes hl)).audited
  setCount b n ha := (ha.quiet (.setCount _ b n) rfl).audited

/-- In every session that a careful run reaches, of values or of any host, the account is complete:
the statistics are the blocks that are there and what the events come to, now and at every moment in
the past. So it is wherever a command has come to, in the middle of a cascade as well as when a
reference was just taken, and while the session is closed. -/
theorem statistics_audited :
    (∀ {s : Session Value}, Reached Session.stepValue ValueCommand.Careful s →
      s.heap.Audited ∧ s.Throughout (·.heap.Audited) s.close ∧
        ∀ c : ValueCommand, c.Steady → c.Careful s →
          s.Throughout (·.heap.Audited) (s.stepValue c).2) ∧
    ∀ {V E : Type} [Host V] [Faced V] [Expression E V] [Meaning E] [Faithful E V] {s : Session V},
      Reached (Session.step (E := E)) Command.Careful s →
        s.heap.Audited ∧ s.Throughout (·.heap.Audited) s.close ∧
          ∀ c : Command E, c.Steady → c.Careful s →
            s.Throughout (·.heap.Audited) (s.step c).2 := by
  constructor
  · intro s hs
    obtain ⟨w, hw, ha⟩ := hs.lasts lasting_audited
    refine ⟨ha, lasting_audited.throughout hw ha hw.moves_close, fun c hsteady hcareful => ?_⟩
    obtain ⟨w', -, hmoves⟩ := hw.step hsteady hcareful.sensible
    exact lasting_audited.throughout hw ha hmoves
  · intro V E _ _ _ _ _ s hs
    obtain ⟨w, hw, ha⟩ := hs.lasts_step lasting_audited
    refine ⟨ha, lasting_audited.throughout hw ha hw.moves_close, fun c hsteady hcareful => ?_⟩
    obtain ⟨w', -, hmoves⟩ := hw.step_command hsteady hcareful.sensible
    exact lasting_audited.throughout hw ha hmoves

/-- A block of two cells holds, inside a list, a pointer to a block whose count was set to zero.
When the first block goes, the other is still there and still counts: of five cells that were made
one is left. And a block of watched numbers goes while another one stays. -/
theorem expired_block_still_counts :
    let s := Session.runValue [.common (.allocate "a" (.int 5)),
      .common (.allocateValues "b" [.list [.handle "a"], .int 7]), .common (.allocateCount "c" 2),
      .common (.rawOf "a" "u"), .common (.rawExpire "u"), .common (.drop "b"),
      .common (.drop "c")] (.empty (.ofMemory 100))
    let t := Session.run [.allocate "a" (Tracked.Term.literal 5), .allocateCount "b" 3,
      .drop "a"] (.empty (.ofMemory 100))
    s.heap.count 0 = 0 ∧ s.heap.stats = ⟨1, 1⟩ ∧ Event.losses s.heap.trace = [(2, 2), (2, 1)] ∧
      t.heap.stats = ⟨3, 1⟩ ∧ s.heap.Audited ∧ t.heap.Audited := by
  intro s t
  have hs : Reached Session.stepValue ValueCommand.Careful s :=
    (((((((Reached.start _).step trivial).step trivial).step trivial).step trivial).step
      trivial).step trivial).step trivial
  have ht : Reached (Session.step (E := Tracked.Term)) Command.Careful t :=
    (((Reached.start _).step trivial).step trivial).step trivial
  exact ⟨by decide +kernel, by decide +kernel, by decide +kernel, by decide +kernel,
    (statistics_audited.1 hs).1, (statistics_audited.2 ht).1⟩

end CountedCells

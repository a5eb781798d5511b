import CountedCells.Proofs.Sound
import Mathlib.Algebra.Order.BigOperators.Group.Finset

/-!
# Upkeep: what the record and the statistics say

Many facts about blocks have nothing to do with who owns what: that a cell holds what was last
written to it, that a block has the number of cells it was made with, that only the first cell of
a block counts, that the statistics add up. Each of them survives the four **elementary changes**,
which are making a block, setting a count, writing a cell and destroying a block, and does not look
at anything else. Such properties are `Kept`, and `Move.keeps` says that moves of sound ledgers
keep them.

That the heap never strays is one of them: in a sound ledger no move misses what it relies on.
-/

namespace CountedCells

variable {V : Type}

/-- Properties of a heap and the record of writing that elementary changes keep. -/
structure Kept (P : Heap V → Written V → Prop) : Prop where
  /-- a block is made -/
  addBlock : ∀ {h w n}, 0 < n → P h w → P (h.addBlock n) (w ++ [List.replicate n none])
  /-- a count is set -/
  setCount : ∀ {h w} b n, P h w → P (h.setCount b n) w
  /-- a cell is written -/
  setValue : ∀ {h w b block i} o, h.block? b = some block → i < block.size → P h w →
    P (h.setValue b i o) (w.put b i o)
  /-- a block is destroyed -/
  destroy : ∀ {h w b block}, h.block? b = some block → P h w → P (h.destroy b block.size) w
  /-- something else happens -/
  elsewhere : ∀ {h h' w}, P h w → h'.blocks = h.blocks → h'.stats = h.stats →
    h'.strays = h.strays → (∀ n b, .allocated n b ∈ h'.trace ↔ .allocated n b ∈ h.trace) → P h' w

namespace Kept

variable {P : Heap V → Written V → Prop}

theorem log (hP : Kept P) {h : Heap V} {w : Written V} {e : Event V}
    (he : ∀ n b, .allocated n b ≠ e) (hp : P h w) : P (h.log e) w :=
  hP.elsewhere hp rfl rfl rfl fun n b =>
    ⟨fun hmem => (List.mem_cons.mp hmem).resolve_left (he n b), List.mem_cons_of_mem e⟩

/-- What changes nothing but payloads, settings and the flag is no elementary change. -/
theorem quiet (hP : Kept P) {h h' : Heap V} {w : Written V} (hp : P h w)
    (hblocks : h'.blocks = h.blocks) (hstats : h'.stats = h.stats)
    (hstrays : h'.strays = h.strays) (htrace : h'.trace = h.trace) : P h' w :=
  hP.elsewhere hp hblocks hstats hstrays fun _ _ => by rw [htrace]

theorem swap (hP : Kept P) {h : Heap V} {w : Written V} {b c : BlockId} {i j : Nat}
    {block other : Block V} (hb : h.block? b = some block) (hi : i < block.size)
    (hc : h.block? c = some other) (hj : j < other.size) (hp : P h w) :
    P (h.swap b i c j) ((w.put b i (h.value? c j)).put c j (h.value? b i)) := by
  obtain ⟨other', hc', hsize⟩ := Heap.exists_block_setValue b i (h.value? c j) hc
  rw [Heap.swap_eq hb hi hc hj]
  exact hP.setValue _ hc' (hsize ▸ hj) (hP.setValue _ hb hi hp)

end Kept

section

variable [Host V] [Faced V] {P : Heap V → Written V → Prop} {l l' : Ledger V}

omit [Host V] [Faced V] in
theorem Event.IsNote.allocated_ne {e : Event V} (he : e.IsNote) (n : Nat) (b : BlockId) :
    .allocated n b ≠ e := by
  rintro rfl
  exact he

/-- Giving something back makes elementary changes only. -/
theorem Kept.carryOut (hP : Kept P) {h : Heap V} {os : Multiset (Owner V)} {w : Written V}
    (t : Task V) (hl : Ledger.Sound ⟨h, {Owner.ofTask t} + os, w⟩) (hp : P h w) :
    P (t.carryOut h).2 w := by
  cases t with
  | disown holder v => exact hP.log (by rintro _ _ ⟨⟩) hp
  | drop r =>
    cases r with
    | block b n =>
      obtain ⟨c, hc⟩ := hl.anchored b n (Ledger.mem_refs_head _)
      obtain ⟨block, hb, -, rfl⟩ := Heap.exists_block_of_shape? hc
      simp only [Task.carryOut, Heap.expect_eq hb, hb]
      split
      · exact hP.log (by rintro _ _ ⟨⟩) hp
      · exact hP.destroy hb hp
      · exact hP.setCount _ _ hp
    | payload p =>
      simp only [Task.carryOut]
      split
      · exact hp
      · split
        · exact hp
        · exact hP.quiet hp rfl rfl rfl rfl
        · exact hP.quiet hp rfl rfl rfl rfl

/-- Moves of sound ledgers keep what elementary changes keep. -/
theorem Move.keeps (hP : Kept P) (m : Move l l') (hl : l.Sound) (hp : P l.heap l.written) :
    P l'.heap l'.written := by
  cases m with
  | allocate hn => exact hP.addBlock (Heap.pos_of_refusal hn) hp
  | @take h os w r hr hlive =>
    cases r with
    | block b n => exact hP.setCount _ _ hp
    | payload p => exact hP.quiet hp rfl rfl rfl rfl
  | share hv hparts => exact hP.quiet hp rfl rfl rfl rfl
  | report holder => exact hP.log (by rintro _ _ ⟨⟩) hp
  | write hb hi => exact hP.setValue _ hb hi hp
  | swap hb hi hc hj => exact hP.swap hb hi hc hj hp
  | task t => exact hP.carryOut t hl hp
  | note he => exact hP.log he.allocated_ne hp
  | @unsettle h os w hs =>
    have hflag : P { h with stable := false } w := hP.quiet hp rfl rfl rfl rfl
    exact hP.log (by rintro _ _ ⟨⟩) hflag
  | configure config => exact hP.quiet hp rfl rfl rfl rfl
  | adopt _ | part | lapse _ => exact hp

theorem Moves.keeps (hP : Kept P) (ms : Moves l l') (hl : l.Sound) (hp : P l.heap l.written) :
    P l'.heap l'.written := by
  induction ms with
  | refl => exact hp
  | tail ms m ih => exact m.keeps hP (Moves.sound ms hl) ih

end

/-! ## The record of writing -/

namespace Heap

/-- The record tells what the cells hold, for each block that is there. -/
structure Recorded (h : Heap V) (w : Written V) : Prop where
  /-- there is an entry for each block that was ever made -/
  length : w.length = h.blocks.length
  /-- the entry of a block that is there is what its cells hold -/
  contents : ∀ b block, h.block? b = some block → w[b]? = some block.contents

@[simp] theorem length_setCount (h : Heap V) (b : BlockId) (n : Nat) :
    (h.setCount b n).blocks.length = h.blocks.length := List.length_modify ..

@[simp] theorem length_setValue (h : Heap V) (b : BlockId) (i : Nat) (o : Option V) :
    (h.setValue b i o).blocks.length = h.blocks.length := List.length_modify ..

theorem kept_recorded : Kept (Recorded (V := V)) where
  addBlock := by
    intro h w n hn hp
    refine ⟨by simp [addBlock, hp.length], fun b block hb => ?_⟩
    rw [block?_addBlock] at hb
    split at hb
    · rename_i hblock
      cases hb
      rw [hblock, ← hp.length, List.getElem?_concat_length, Block.contents_fresh hn]
    · have hw := hp.contents b block hb
      rw [List.getElem?_append_left (List.getElem?_eq_some_iff.mp hw).1, hw]
  setCount := by
    intro h w b n hp
    refine ⟨by rw [hp.length, length_setCount], fun c block hc => ?_⟩
    rw [block?_setCount] at hc
    split at hc
    · obtain ⟨before, hbefore, rfl⟩ := Option.map_eq_some_iff.mp hc
      exact hp.contents c before hbefore
    · exact hp.contents c block hc
  setValue := by
    intro h w b block i o hb hi hp
    refine ⟨by rw [Written.put, List.length_modify, hp.length, length_setValue], ?_⟩
    intro c other hc
    rw [block?_setValue] at hc
    rw [Written.put, List.getElem?_modify]
    split at hc
    · rename_i hcb
      obtain ⟨before, hbefore, rfl⟩ := Option.map_eq_some_iff.mp hc
      rw [hp.contents c before hbefore, Option.map_eq_map, Option.map_some, if_pos hcb.symm,
        Block.contents_withValue]
    · rename_i hcb
      rw [hp.contents c other hc, Option.map_eq_map, Option.map_some, if_neg (Ne.symm hcb)]
  destroy := by
    intro h w b block hb hp
    refine ⟨by simp [destroy, hp.length], fun c other hc => ?_⟩
    rw [block?_destroy] at hc
    split at hc
    · cases hc
    · exact hp.contents c other hc
  elsewhere := by
    intro h h' w hp hblocks _ _ _
    refine ⟨by rw [hp.length, hblocks], fun b block hb => hp.contents b block ?_⟩
    rwa [block?, hblocks] at hb

/-- The record tells what reading a cell finds. -/
theorem Recorded.value?_eq {h : Heap V} {w : Written V} (hr : h.Recorded w) {b : BlockId}
    {block : Block V} (hb : h.block? b = some block) (i : Nat) : h.value? b i = w.at? b i := by
  rw [Heap.value?_eq hb, Written.at?, hr.contents b block hb, Option.bind_some]

/-! ## What blocks look like -/

/-- Blocks are as they were made, but for the count in the first cell and the values. -/
structure Unaltered (h : Heap V) : Prop where
  /-- only blocks that were made have a number -/
  numbered : ∀ n b, .allocated n b ∈ h.trace → b < h.blocks.length
  /-- a block has the number of cells that it was made with -/
  size : ∀ b block, h.block? b = some block → ∀ n, .allocated n b ∈ h.trace ↔ n = block.size
  /-- cells that are not the first have a count of one -/
  rest : ∀ b block, h.block? b = some block → ∀ c ∈ block.rest, c.count = 1

theorem Unaltered.of_others {h h' : Heap V} (hp : h.Unaltered)
    (htrace : ∀ n b, .allocated n b ∈ h'.trace ↔ .allocated n b ∈ h.trace)
    (hlength : h'.blocks.length = h.blocks.length)
    (hblock : ∀ b block, h'.block? b = some block → ∃ before, h.block? b = some before ∧
      block.size = before.size ∧
        ((∀ c ∈ before.rest, c.count = 1) → ∀ c ∈ block.rest, c.count = 1)) :
    h'.Unaltered := by
  refine ⟨fun n b hmem => ?_, fun b block hb n => ?_, fun b block hb => ?_⟩
  · rw [hlength]
    exact hp.numbered n b ((htrace n b).mp hmem)
  · obtain ⟨before, hbefore, hsize, -⟩ := hblock b block hb
    rw [htrace, hsize]
    exact hp.size b before hbefore n
  · obtain ⟨before, hbefore, -, hrest⟩ := hblock b block hb
    exact hrest (hp.rest b before hbefore)

theorem Unaltered.addBlock {h : Heap V} {n : Nat} (hn : 0 < n) (hp : h.Unaltered) :
    (h.addBlock n).Unaltered := by
  have hmem (m b : Nat) : .allocated m b ∈ (h.addBlock n).trace ↔
      (m = n ∧ b = h.blocks.length) ∨ .allocated m b ∈ h.trace := by
    simp [Heap.addBlock]
  refine ⟨fun m b hb => ?_, fun b block hb m => ?_, fun b block hb => ?_⟩
  · have hlength : (h.addBlock n).blocks.length = h.blocks.length + 1 := by simp [Heap.addBlock]
    rw [hlength]
    rcases (hmem m b).mp hb with ⟨-, rfl⟩ | hb
    · exact Nat.lt_succ_self _
    · exact Nat.lt_succ_of_lt (hp.numbered m b hb)
  · rw [hmem]
    rw [block?_addBlock] at hb
    split at hb
    · rename_i hblock
      cases hb
      rw [Block.size_fresh hn]
      -- the number is fresh, so no other event tells of the block
      refine ⟨fun hm => ?_, fun hm => .inl ⟨hm, hblock⟩⟩
      rcases hm with ⟨hm, -⟩ | hm
      · exact hm
      · exact absurd (hp.numbered m b hm) (hblock ▸ Nat.lt_irrefl _)
    · rename_i hblock
      rw [hp.size b block hb m]
      exact ⟨fun hm => hm.resolve_left fun hnew => hblock hnew.2, .inr⟩
  · rw [block?_addBlock] at hb
    split at hb
    · cases hb
      intro c hc
      rw [(List.mem_replicate.mp hc).2]
      rfl
    · exact hp.rest b block hb

theorem kept_unaltered : Kept fun (h : Heap V) _ => h.Unaltered where
  addBlock := fun hn hp => hp.addBlock hn
  setCount := by
    intro h w b n hp
    refine hp.of_others (fun _ _ => Iff.rfl) (length_setCount h b n) fun c block hc => ?_
    rw [block?_setCount] at hc
    split at hc
    · obtain ⟨before, hbefore, rfl⟩ := Option.map_eq_some_iff.mp hc
      exact ⟨before, hbefore, rfl, id⟩
    · exact ⟨block, hc, rfl, id⟩
  setValue := by
    intro h w b block i o hb hi hp
    refine hp.of_others (fun _ _ => Iff.rfl) (length_setValue h b i o) fun c other hc => ?_
    rw [block?_setValue] at hc
    split at hc
    · obtain ⟨before, hbefore, rfl⟩ := Option.map_eq_some_iff.mp hc
      exact ⟨before, hbefore, Block.size_withValue ..,
        fun hrest => Block.counts_rest_withValue hrest i o⟩
    · exact ⟨other, hc, rfl, id⟩
  destroy := by
    intro h w b block hb hp
    refine hp.of_others (fun _ _ => by simp [destroy]) (by simp [destroy]) fun c other hc => ?_
    rw [block?_destroy] at hc
    split at hc
    · cases hc
    · exact ⟨other, hc, rfl, id⟩
  elsewhere := by
    intro h h' w hp hblocks _ _ htrace
    refine hp.of_others htrace (by rw [hblocks]) fun b block hb => ⟨block, ?_, rfl, id⟩
    rwa [block?, hblocks] at hb

/-! ## Accesses -/

theorem kept_strays (accesses : List Access) :
    Kept fun (h : Heap V) (_ : Written V) => h.strays = accesses where
  addBlock _ := id
  setCount _ _ := id
  setValue _ _ _ := id
  destroy _ := id
  elsewhere hp _ _ hstrays _ := hstrays.trans hp

/-! ## Statistics -/

/-- The blocks that are there. -/
def living (h : Heap V) : Finset BlockId :=
  (Finset.range h.blocks.length).filter fun b => (h.block? b).isSome

theorem mem_living {h : Heap V} {b : BlockId} :
    b ∈ h.living ↔ ∃ block, h.block? b = some block := by
  rw [living, Finset.mem_filter, Finset.mem_range, Option.isSome_iff_exists]
  exact ⟨And.right, fun ⟨block, hb⟩ => ⟨lt_of_block? hb, block, hb⟩⟩

/-- The statistics are the number of the blocks that are there, and of all their cells. -/
def Accounted (h : Heap V) : Prop := h.stats = ⟨∑ b ∈ h.living, h.sizeAt b, h.living.card⟩

/-- The statistics depend on the sizes of blocks alone. -/
theorem Accounted.of_size_eq {h h' : Heap V} (hp : h.Accounted) (hstats : h'.stats = h.stats)
    (hlength : h'.blocks.length = h.blocks.length)
    (hsize : ∀ b, (h'.block? b).map Block.size = (h.block? b).map Block.size) : h'.Accounted := by
  have hliving : h'.living = h.living := by
    rw [living, hlength]
    refine Finset.filter_congr fun b _ => ?_
    rw [← Option.isSome_map (f := Block.size), hsize, Option.isSome_map]
  have hsizeAt : h'.sizeAt = h.sizeAt := by
    funext b
    rw [sizeAt, sizeAt, hsize]
  rw [Accounted, hstats, hp, hliving, hsizeAt]

theorem living_addBlock (h : Heap V) (n : Nat) :
    (h.addBlock n).living = insert h.blocks.length h.living := by
  ext b
  rw [Finset.mem_insert, mem_living, mem_living, block?_addBlock]
  by_cases hb : b = h.blocks.length
  · simp [hb]
  · simp [hb]

theorem living_destroy (h : Heap V) (b : BlockId) (n : Nat) :
    (h.destroy b n).living = h.living.erase b := by
  ext c
  rw [Finset.mem_erase, mem_living, mem_living, block?_destroy]
  by_cases hc : c = b
  · simp [hc]
  · simp [hc]

theorem Accounted.addBlock {h : Heap V} {n : Nat} (hn : 0 < n) (hp : h.Accounted) :
    (h.addBlock n).Accounted := by
  have hfresh : h.blocks.length ∉ h.living := by
    rw [mem_living]
    rintro ⟨block, hb⟩
    exact Nat.lt_irrefl _ (lt_of_block? hb)
  have hnew : (h.addBlock n).sizeAt h.blocks.length = n := by
    rw [sizeAt, block?_addBlock, if_pos rfl]
    exact Block.size_fresh hn
  have hold : ∀ b ∈ h.living, (h.addBlock n).sizeAt b = h.sizeAt b := by
    intro b hb
    have hne : b ≠ h.blocks.length := fun heq => hfresh (heq ▸ hb)
    rw [sizeAt, block?_addBlock, if_neg hne, sizeAt]
  have hstats : (h.addBlock n).stats = ⟨h.stats.liveCells + n, h.stats.liveBlocks + 1⟩ := rfl
  rw [Accounted, hstats, hp, living_addBlock, Finset.sum_insert hfresh, hnew,
    Finset.sum_congr rfl hold, Finset.card_insert_of_notMem hfresh, Nat.add_comm n]

theorem Accounted.destroy {h : Heap V} {b : BlockId} {block : Block V}
    (hb : h.block? b = some block)
    (hp : h.Accounted) : (h.destroy b block.size).Accounted := by
  have hmem : b ∈ h.living := mem_living.mpr ⟨block, hb⟩
  have hsize : h.sizeAt b = block.size := by rw [sizeAt, hb]; rfl
  have hold : ∀ c ∈ h.living.erase b, (h.destroy b block.size).sizeAt c = h.sizeAt c := by
    intro c hc
    rw [sizeAt, block?_destroy, if_neg (Finset.ne_of_mem_erase hc), sizeAt]
  have hstats : (h.destroy b block.size).stats =
      ⟨h.stats.liveCells - block.size, h.stats.liveBlocks - 1⟩ := rfl
  rw [Accounted, hstats, hp, living_destroy, Finset.sum_congr rfl hold,
    ← Finset.sum_erase_add _ _ hmem, hsize, Nat.add_sub_cancel, Finset.card_erase_of_mem hmem]

/-- The statistics cover every block that is there. -/
theorem Accounted.covers {h : Heap V} {b : BlockId} {block : Block V}
    (hb : h.block? b = some block) (hp : h.Accounted) :
    block.size ≤ h.stats.liveCells ∧ 0 < h.stats.liveBlocks := by
  have hmem : b ∈ h.living := mem_living.mpr ⟨block, hb⟩
  have hsize : h.sizeAt b = block.size := by rw [sizeAt, hb]; rfl
  rw [hp, ← hsize]
  exact ⟨Finset.single_le_sum (f := h.sizeAt) (fun _ _ => Nat.zero_le _) hmem,
    Finset.card_pos.mpr ⟨b, hmem⟩⟩

theorem kept_accounted : Kept fun (h : Heap V) _ => h.Accounted where
  addBlock := fun hn hp => hp.addBlock hn
  setCount := by
    intro h w b n hp
    refine hp.of_size_eq rfl (length_setCount h b n) fun c => ?_
    rw [block?_setCount]
    split
    · cases h.block? c <;> rfl
    · rfl
  setValue := by
    intro h w b block i o hb hi hp
    refine hp.of_size_eq rfl (length_setValue h b i o) fun c => ?_
    rw [block?_setValue]
    split
    · cases h.block? c <;> simp
    · rfl
  destroy := fun hb hp => hp.destroy hb
  elsewhere := by
    intro h h' w hp hblocks hstats _ _
    exact hp.of_size_eq hstats (by rw [hblocks]) fun b => by rw [block?, block?, hblocks]

end Heap
end CountedCells

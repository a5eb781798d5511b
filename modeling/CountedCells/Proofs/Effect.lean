import CountedCells.Proofs.Ledger
import Mathlib.Logic.Function.Basic

/-!
# Effects: what a move does to counts

In a **sound** ledger every reference leads somewhere: to a block that is there, with the number of
cells that the reference tells, or to a payload. Payloads are counted exactly. The count of a block
is a 64-bit number: zero, which freezes the block, or **at least** the number of its owners, so that
it cannot be destroyed while somebody owns it. And a value that owns a share of a payload finds its
parts there.

`Effect` says what a move of a sound ledger does to the counts: at most one block or one payload is
concerned, and at most one reference comes or goes. Moves are looked at one by one here and nowhere
else; what is kept by effects is kept by moves.
-/

namespace CountedCells

variable {V : Type}

/-- The count and the number of cells of a block. -/
def Heap.shape? (h : Heap V) (b : BlockId) : Option (Nat × Nat) :=
  (h.block? b).map fun block => (block.count, block.size)

namespace Heap

theorem shape?_eq {h : Heap V} {b : BlockId} {block : Block V} (hb : h.block? b = some block) :
    h.shape? b = some (block.count, block.size) := by
  rw [shape?, hb]
  rfl

theorem exists_block_of_shape? {h : Heap V} {b : BlockId} {c n : Nat}
    (hs : h.shape? b = some (c, n)) :
    ∃ block, h.block? b = some block ∧ block.count = c ∧ block.size = n := by
  obtain ⟨block, hb, hcn⟩ := Option.map_eq_some_iff.mp hs
  exact ⟨block, hb, congrArg Prod.fst hcn, congrArg Prod.snd hcn⟩

theorem shape?_setCount {h : Heap V} {b : BlockId} {block : Block V}
    (hb : h.block? b = some block) (n : Nat) :
    (h.setCount b n).shape? = Function.update h.shape? b (some (n, block.size)) := by
  funext c
  rw [shape?, block?_setCount]
  by_cases hc : c = b
  · subst hc
    rw [if_pos rfl, hb, Function.update_self]
    rfl
  · rw [if_neg hc, Function.update_of_ne hc]
    rfl

@[simp] theorem shape?_setValue (h : Heap V) (b : BlockId) (i : Nat) (o : Option V) :
    (h.setValue b i o).shape? = h.shape? := by
  funext c
  rw [shape?, block?_setValue]
  split
  · unfold shape?
    cases h.block? c <;> simp
  · rfl

theorem shape?_addBlock (h : Heap V) {n : Nat} (hn : 0 < n) :
    (h.addBlock n).shape? = Function.update h.shape? h.blocks.length (some (1, n)) := by
  funext c
  rw [shape?, block?_addBlock]
  by_cases hc : c = h.blocks.length
  · subst hc
    rw [if_pos rfl, Function.update_self, Option.map_some, Block.size_fresh hn]
    rfl
  · rw [if_neg hc, Function.update_of_ne hc]
    rfl

theorem shape?_destroy (h : Heap V) (b : BlockId) (n : Nat) :
    (h.destroy b n).shape? = Function.update h.shape? b none := by
  funext c
  rw [shape?, block?_destroy]
  by_cases hc : c = b
  · subst hc
    rw [if_pos rfl, Function.update_self]
    rfl
  · rw [if_neg hc, Function.update_of_ne hc]
    rfl

theorem pos_of_refusal {h : Heap V} {n : Nat} (hn : h.refusal n = none) : 0 < n := by
  rcases Nat.eq_zero_or_pos n with rfl | hpos
  · simp [refusal] at hn
  · exact hpos

/-- Where a request is granted, the live cells are a 64-bit count with the new ones, too. -/
theorem room_of_refusal {h : Heap V} {n : Nat} (hn : h.refusal n = none) :
    h.stats.liveCells + n < Config.countRange := by
  refine h.system.bounded h.stats n (Bool.eq_false_iff.mpr fun hrefuses => ?_)
  simp only [refusal, hrefuses, if_true] at hn
  split at hn
  · cases hn
  · split at hn <;> cases hn

/-- A request for cells is refused for want of room. -/
theorem eq_of_refusal {h : Heap V} {n : Nat} {e : HeapError} (hn : h.refusal n = some e) :
    e = if n = 0 then .emptyCollection else .allocation n := by
  rw [refusal] at hn
  split at hn <;> rename_i hzero
  · rw [if_pos hzero]
    exact (Option.some_inj.mp hn).symm
  · rw [if_neg hzero]
    split at hn
    · exact (Option.some_inj.mp hn).symm
    · split at hn
      · exact (Option.some_inj.mp hn).symm
      · cases hn

end Heap

variable [Host V]

/-! ## Soundness -/

/-- A count is zero or covers the owners, and it is a 64-bit number. -/
def Covered (count owners : Nat) : Prop :=
  (count = 0 ∨ owners ≤ count) ∧ count < Config.countRange

/-- All counts are related to the numbers of owners. -/
def Ledger.Tally (R : Nat → Nat → Prop) (l : Ledger V) : Prop :=
  ∀ b c n, l.heap.shape? b = some (c, n) → R c (l.ownersOf b)

/-- What every operation relies on. -/
structure Ledger.Sound [Faced V] (l : Ledger V) : Prop where
  /-- the counts of blocks are zero or cover the owners -/
  counted : l.Tally Covered
  /-- the counts of payloads are the numbers of owners -/
  shared : ∀ (p : PayloadId) (payload : Payload V), l.heap.payloads[p]? = some payload →
    payload.shares = l.sharersOf p
  /-- a payload that nobody shares has no parts -/
  spent : ∀ (p : PayloadId) (payload : Payload V), l.heap.payloads[p]? = some payload →
    payload.shares = 0 → payload.parts = []
  /-- a reference to a block leads to a block of that many cells -/
  anchored : ∀ b n, .block b n ∈ l.refs → ∃ c, l.heap.shape? b = some (c, n)
  /-- a reference to a payload leads to a payload -/
  known : ∀ p, .payload p ∈ l.refs → p < l.heap.payloads.length
  /-- values with shared content find it -/
  backed : ∀ v, l.Has v → Backed l.heap v

/-! ## What a move does to counts -/

/-- The effect of a move on counts and references. -/
inductive Effect (l l' : Ledger V) : Prop where
  /-- none -/
  | quiet (hshape : l'.heap.shape? = l.heap.shape?)
      (hpayloads : l'.heap.payloads = l.heap.payloads) (hrefs : l'.refs = l.refs)
  /-- a block is there that was not -/
  | made {b n : Nat} (hb : b = l.heap.blocks.length)
      (hshape : l'.heap.shape? = Function.update l.heap.shape? b (some (1, n)))
      (hpayloads : l'.heap.payloads = l.heap.payloads) (hrefs : l'.refs = {.block b n} + l.refs)
  /-- a block has one reference more -/
  | took {b c n : Nat} (hmem : .block b n ∈ l.refs) (hb : l.heap.shape? b = some (c, n))
      (hc : 0 < c) (hroom : c + 1 < Config.countRange)
      (hshape : l'.heap.shape? = Function.update l.heap.shape? b (some (c + 1, n)))
      (hpayloads : l'.heap.payloads = l.heap.payloads) (hrefs : l'.refs = {.block b n} + l.refs)
  /-- a block has one reference less -/
  | gave {b c n : Nat} (hb : l.heap.shape? b = some (c + 2, n))
      (hshape : l'.heap.shape? = Function.update l.heap.shape? b (some (c + 1, n)))
      (hpayloads : l'.heap.payloads = l.heap.payloads) (hrefs : l.refs = {.block b n} + l'.refs)
  /-- a reference goes, but the block has no count that could tell -/
  | lapsed {b n : Nat} (hb : l.heap.shape? b = some (0, n))
      (hshape : l'.heap.shape? = l.heap.shape?)
      (hpayloads : l'.heap.payloads = l.heap.payloads) (hrefs : l.refs = {.block b n} + l'.refs)
  /-- the last reference to a block goes, and the block with it -/
  | destroyed {b n : Nat} (hb : l.heap.shape? b = some (1, n))
      (hshape : l'.heap.shape? = Function.update l.heap.shape? b none)
      (hpayloads : l'.heap.payloads = l.heap.payloads) (hrefs : l.refs = {.block b n} + l'.refs)
  /-- a payload is there that was not -/
  | shared {parts : List V} (hshape : l'.heap.shape? = l.heap.shape?)
      (hpayloads : l'.heap.payloads = l.heap.payloads ++ [⟨1, parts⟩])
      (hrefs : l'.refs = {.payload l.heap.payloads.length} + l.refs)
  /-- a payload has another number of shares -/
  | reshared {p : PayloadId} {payload : Payload V} {k : Nat}
      (hp : l.heap.payloads[p]? = some payload) (hk : 0 < k)
      (hshape : l'.heap.shape? = l.heap.shape?)
      (hpayloads : l'.heap.payloads = l.heap.payloads.set p { payload with shares := k })
      (hrefs : (.payload p ∈ l.refs ∧ k = payload.shares + 1 ∧ l'.refs = {.payload p} + l.refs) ∨
        (payload.shares = k + 1 ∧ l.refs = {.payload p} + l'.refs))
  /-- the last share of a payload goes, and the parts with it -/
  | cleared {p : PayloadId} {payload : Payload V}
      (hp : l.heap.payloads[p]? = some payload) (hone : payload.shares = 1)
      (hshape : l'.heap.shape? = l.heap.shape?)
      (hpayloads : l'.heap.payloads = l.heap.payloads.set p ⟨0, []⟩)
      (hrefs : l.refs = {.payload p} + l'.refs)

namespace Ledger

variable {h h' : Heap V} {os os' : Multiset (Owner V)} {w w' : Written V}

theorem refs_mk : Ledger.refs ⟨h, os, w⟩ = h.held.filterMap Host.ref + Owner.refs os := rfl

/-- Each owner outside counts with its own references. -/
theorem refs_owners_add :
    Ledger.refs ⟨h, os + os', w⟩ = Owner.refs os + Ledger.refs ⟨h, os', w⟩ := by
  simp only [refs_mk, Owner.refs_add]
  abel

/-- A count that is set by hand is no owner's concern. -/
theorem refs_setCount (b : BlockId) (n : Nat) :
    Ledger.refs ⟨h.setCount b n, os, w⟩ = Ledger.refs ⟨h, os, w⟩ := by
  rw [refs_mk, refs_mk, Heap.held_setCount]

/-- Whoever owns a reference outside is one of its owners. -/
theorem mem_refs_head (r : Ref) : r ∈ Ledger.refs ⟨h, {.ref r} + os, w⟩ := by
  rw [refs_owners_add, Owner.refs_ref]
  exact Multiset.mem_add.mpr (.inl (Multiset.mem_singleton_self r))

/-- Values that go from the heap to an owner outside take their references with them. -/
theorem refs_eq_of_held {vs ws : List V} (holder : Holder)
    (hheld : h'.held + (vs : Multiset V) = h.held + (ws : Multiset V)) :
    Ledger.refs ⟨h', Owner.ofValues holder vs + os, w'⟩ =
      Ledger.refs ⟨h, Owner.ofValues holder ws + os, w⟩ := by
  simp only [refs_mk, Owner.refs_add, Owner.refs_ofValues, ← add_assoc, ← Multiset.filterMap_add,
    hheld]

end Ledger

section

variable [Faced V]

/-- A task that gives back a reference to a block gives back this one, and no other. -/
theorem Ledger.refs_drop_block {h : Heap V} {os : Multiset (Owner V)} {w : Written V} {b n : Nat}
    (hl : Ledger.Sound ⟨h, {.ref (.block b n)} + os, w⟩) :
    Ledger.refs ⟨h, {.ref (.block b n)} + os, w⟩ = {.block b n} +
      Ledger.refs ⟨((Task.drop (.block b n)).carryOut h).2,
        Owner.ofTasks ((Task.drop (.block b n)).carryOut h).1 + os, w⟩ := by
  obtain ⟨c, hc⟩ := hl.anchored b n (Ledger.mem_refs_head _)
  obtain ⟨block, hb, rfl, rfl⟩ := Heap.exists_block_of_shape? hc
  refine Ledger.refs_owners_add.trans ?_
  simp only [Task.carryOut, Heap.expect_eq hb, hb]
  rcases block.count with - | - | c
  · simp only [Ledger.refs_mk, Owner.ofTasks_nil, zero_add, Heap.held_log]
    rfl
  · -- the values of the block are owned by the cascade from here on
    have hheld : (h.destroy b block.size).held + (block.stored : Multiset V) =
        h.held + (([] : List V) : Multiset V) := by
      rw [Heap.held_destroy hb, Multiset.coe_nil, add_zero]
    simp only [Owner.ofTasks_disown, Block.values_size]
    rw [Ledger.refs_eq_of_held (w := w) .cell hheld, Owner.ofValues_nil, zero_add]
    rfl
  · simp only [Ledger.refs_mk, Owner.ofTasks_nil, zero_add, Heap.held_setCount]
    rfl

omit [Faced V] in
/-- A task that gives back a share of a payload gives back this one, and no other. -/
theorem Ledger.refs_drop_payload (h : Heap V) (os : Multiset (Owner V)) (w : Written V)
    (p : PayloadId) :
    Ledger.refs ⟨h, {.ref (.payload p)} + os, w⟩ = {.payload p} +
      Ledger.refs ⟨((Task.drop (.payload p)).carryOut h).2,
        Owner.ofTasks ((Task.drop (.payload p)).carryOut h).1 + os, w⟩ := by
  refine Ledger.refs_owners_add.trans ?_
  rcases hp : h.payloads[p]? with - | payload <;> simp only [Task.carryOut, hp]
  · simp only [Ledger.refs_mk, Owner.ofTasks_nil, zero_add]
    rfl
  rcases payload.shares with - | - | k
  · simp only [Ledger.refs_mk, Owner.ofTasks_nil, zero_add]
    rfl
  · -- the parts are no longer in the heap, but what they refer to is yet to be given back
    have hheld := Heap.held_clearPayload hp
    simp only [Ledger.refs_mk, Owner.refs_add, Owner.refs_dropsOf, ← add_assoc,
      ← Multiset.filterMap_add, hheld]
    rfl
  · simp only [Ledger.refs_mk, Owner.ofTasks_nil, zero_add, Heap.held_setShares]
    rfl

/-- Giving back a reference to a block. -/
theorem effect_drop_block {h : Heap V} {os : Multiset (Owner V)} {w : Written V} {b n : Nat}
    (hl : Ledger.Sound ⟨h, {.ref (.block b n)} + os, w⟩) :
    Effect ⟨h, {.ref (.block b n)} + os, w⟩
      ⟨((Task.drop (.block b n)).carryOut h).2,
        Owner.ofTasks ((Task.drop (.block b n)).carryOut h).1 + os, w⟩ := by
  obtain ⟨c, hc⟩ := hl.anchored b n (Ledger.mem_refs_head _)
  obtain ⟨block, hb, rfl, rfl⟩ := Heap.exists_block_of_shape? hc
  have hrefs := Ledger.refs_drop_block hl
  simp only [Task.carryOut, Heap.expect_eq hb, hb] at hrefs ⊢
  rcases hcount : block.count with - | - | c <;> rw [hcount] at hc hrefs
  · exact .lapsed hc rfl rfl hrefs
  · exact .destroyed hc (Heap.shape?_destroy h b _) rfl hrefs
  · exact .gave hc (Heap.shape?_setCount hb _) rfl hrefs

/-- Giving back a share of a payload. -/
theorem effect_drop_payload {h : Heap V} {os : Multiset (Owner V)} {w : Written V} {p : PayloadId}
    (hl : Ledger.Sound ⟨h, {.ref (.payload p)} + os, w⟩) :
    Effect ⟨h, {.ref (.payload p)} + os, w⟩
      ⟨((Task.drop (.payload p)).carryOut h).2,
        Owner.ofTasks ((Task.drop (.payload p)).carryOut h).1 + os, w⟩ := by
  have hmem : .payload p ∈ Ledger.refs ⟨h, {.ref (.payload p)} + os, w⟩ := Ledger.mem_refs_head _
  obtain ⟨payload, hp⟩ : ∃ payload, h.payloads[p]? = some payload :=
    ⟨_, List.getElem?_eq_getElem (hl.known p hmem)⟩
  have hpos : 0 < payload.shares := by
    rw [hl.shared p payload hp]
    exact Multiset.count_pos.mpr hmem
  have hrefs := Ledger.refs_drop_payload h os w p
  simp only [Task.carryOut, hp] at hrefs ⊢
  rcases hcount : payload.shares with - | - | k <;> rw [hcount] at hrefs
  · omega
  · exact .cleared hp hcount rfl rfl hrefs
  · exact .reshared hp (Nat.succ_pos k) rfl (modify_eq_set_of_getElem? _ hp) (.inr ⟨hcount, hrefs⟩)

/-- Every move of a sound ledger has one of the effects. -/
theorem Move.effect {l l' : Ledger V} (hl : l.Sound) (m : Move l l') : Effect l l' := by
  cases m with
  | allocate hn =>
    refine .made rfl (Heap.shape?_addBlock _ (Heap.pos_of_refusal hn)) rfl ?_
    simp only [Ledger.refs_mk, Heap.held_addBlock, Owner.refs_add, Owner.refs_ref]
    abel
  | @take h os w r hr hlive hroom =>
    cases r with
    | block b n =>
      obtain ⟨c, hc⟩ := hl.anchored b n hr
      obtain ⟨block, hb, rfl, rfl⟩ := Heap.exists_block_of_shape? hc
      have hcount := Heap.count_eq hb
      refine .took hr hc (hcount ▸ hlive b _ rfl) (hcount ▸ hroom b _ rfl) ?_ rfl ?_
      · show (h.setCount b (h.count b + 1)).shape? = _
        rw [Heap.shape?_setCount hb, hcount]
      · simp only [Ledger.refs_mk, Heap.take, Heap.held_setCount, Owner.refs_add, Owner.refs_ref]
        abel
    | payload p =>
      obtain ⟨payload, hp⟩ : ∃ payload, h.payloads[p]? = some payload :=
        ⟨_, List.getElem?_eq_getElem (hl.known p hr)⟩
      have hshares : h.shares p = payload.shares := by
        rw [Heap.shares, hp]
        rfl
      refine .reshared (k := payload.shares + 1) hp (Nat.succ_pos _) rfl ?_ (.inl ⟨hr, rfl, ?_⟩)
      · show h.payloads.modify p _ = _
        rw [modify_eq_set_of_getElem? _ hp, hshares]
      · simp only [Ledger.refs_mk, Heap.take, Heap.held_setShares, Owner.refs_add, Owner.refs_ref]
        abel
  | adopt hv =>
    refine .quiet rfl rfl ?_
    rw [Ledger.refs_owners_add, Ledger.refs_owners_add, Owner.refs_value, Owner.refs_ofRef]
  | part =>
    refine .quiet rfl rfl ?_
    rw [Ledger.refs_owners_add, Ledger.refs_owners_add, Owner.refs_value, Owner.refs_ofRef]
  | @share h os w v parts hv hparts =>
    refine .shared rfl rfl ?_
    simp only [Ledger.refs_mk, Heap.held_addPayload, Multiset.filterMap_add, Owner.refs_add,
      Owner.refs_value, Owner.refs_ofValues, hv, Option.toList_some, Multiset.coe_singleton]
    abel
  | report holder =>
    refine .quiet rfl rfl ?_
    simp only [Ledger.refs_mk, Heap.held_log, Owner.refs_add, Owner.refs_value]
  | @write h os w v b i block hb hi =>
    refine .quiet (Heap.shape?_setValue ..) rfl ?_
    have hheld : (h.setValue b i (some v)).held + (h.value? b i).toList = h.held + ([v] : List V) :=
      Heap.held_setValue hb hi (some v)
    exact Ledger.refs_eq_of_held .cell hheld
  | @swap h os w b c i j block other hb hi hc hj =>
    have hshape : (h.swap b i c j).shape? = h.shape? := by
      rw [Heap.swap_eq hb hi hc hj, Heap.shape?_setValue, Heap.shape?_setValue]
    refine .quiet hshape ?_ ?_
    · rw [Heap.swap_eq hb hi hc hj]
      rfl
    · simp only [Ledger.refs_mk, Heap.held_swap hb hi hc hj]
  | task t =>
    cases t with
    | disown holder v =>
      refine .quiet rfl rfl ?_
      simp only [Ledger.refs_mk, Task.carryOut, Owner.ofTasks_dropsOf, Owner.ofTask, Heap.held_log,
        Owner.refs_add, Owner.refs_value, Owner.refs_ofRef]
    | drop r =>
      cases r with
      | block b n => exact effect_drop_block hl
      | payload p => exact effect_drop_payload hl
  | @lapse h os w b n hc =>
    obtain ⟨c, hs⟩ := hl.anchored b n (Ledger.mem_refs_head _)
    obtain ⟨block, hb, rfl, rfl⟩ := Heap.exists_block_of_shape? hs
    rw [← Heap.count_eq hb, hc] at hs
    exact .lapsed hs rfl rfl Ledger.refs_owners_add
  | note he => exact .quiet rfl rfl rfl
  | unsettle hs => exact .quiet rfl rfl rfl
  | configure config => exact .quiet rfl rfl rfl

end

end CountedCells

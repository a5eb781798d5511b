import CountedCells.Proofs.Errors

/-!
# Unwinding: what an operation undoes that ends early

An operation that is abandoned has taken some references by then, and it may have made a block. It
gives back what it took, so the heap is `Restored`: every block and every payload is as it was, and
so are the statistics. There is one exception, a write through a null pointer, which leaves the
fresh cell behind and the pointer on it, although nothing was ever written to the cell.

While an operation runs, its heap is `Ahead` of the heap before by the references that it has taken.
To give one of them back never destroys anything, because there was a count already when it was
taken. So it does not matter what the counts are, and of the invariants only one is needed, that
references lead somewhere.
-/

namespace CountedCells

open Attempt

variable {V : Type}

namespace Ref

/-- How many of the references are to a block. -/
def countTo (rs : Multiset Ref) (b : BlockId) : Nat := rs.countP (·.block? = some b)

theorem countTo_cons_self (b n : Nat) (rs : Multiset Ref) :
    countTo (.block b n ::ₘ rs) b = countTo rs b + 1 :=
  Multiset.countP_cons_of_pos (p := (Ref.block? · = some b)) rs rfl

theorem countTo_cons_of_ne {b c : BlockId} (hc : c ≠ b) (n : Nat) (rs : Multiset Ref) :
    countTo (.block b n ::ₘ rs) c = countTo rs c :=
  Multiset.countP_cons_of_neg (p := (Ref.block? · = some c)) rs
    fun heq => hc (Option.some_inj.mp heq).symm

theorem countTo_cons_payload (p : PayloadId) (rs : Multiset Ref) (b : BlockId) :
    countTo (.payload p ::ₘ rs) b = countTo rs b :=
  Multiset.countP_cons_of_neg (p := (Ref.block? · = some b)) rs nofun

/-- Where there are references to a block, there is one. -/
theorem exists_of_countTo {rs : Multiset Ref} {b : BlockId} (hrs : 0 < countTo rs b) :
    ∃ n, .block b n ∈ rs := by
  obtain ⟨r, hr, hrb⟩ := Multiset.countP_pos.mp hrs
  cases r with
  | payload p => cases hrb
  | block c n =>
    cases hrb
    exact ⟨n, hr⟩

end Ref

/-- The block with more references to it. -/
def Block.raised (block : Block V) (k : Nat) : Block V := block.withCount (block.count + k)

@[simp] theorem Block.size_raised (block : Block V) (k : Nat) :
    (block.raised k).size = block.size := rfl

@[simp] theorem Block.contents_raised (block : Block V) (k : Nat) :
    (block.raised k).contents = block.contents := rfl

namespace Heap

/-! ## Heaps before and after -/

/-- The heap is as another one was, apart from the trace and the block numbers that were used. -/
structure Restored (h h' : Heap V) : Prop where
  /-- the same system -/
  system : h'.system = h.system
  /-- the same blocks, with the same counts and contents -/
  block : ∀ b, h'.block? b = h.block? b
  /-- the same payloads -/
  payloads : h'.payloads = h.payloads
  /-- the same statistics -/
  stats : h'.stats = h.stats
  /-- the same limit -/
  config : h'.config = h.config
  /-- the same flag -/
  stable : h'.stable = h.stable
  /-- the same record of accesses -/
  strays : h'.strays = h.strays

/-- A heap is as another one was, but for references that have been taken in addition. -/
structure Ahead (h : Heap V) (rs : Multiset Ref) (g : Heap V) : Prop where
  /-- the same system -/
  system : g.system = h.system
  /-- the counts of blocks are higher -/
  block : ∀ b, g.block? b = (h.block? b).map (·.raised (Ref.countTo rs b))
  /-- the counts of payloads are higher -/
  payload : ∀ p : PayloadId, g.payloads[p]? = h.payloads[p]?.map
    fun payload => { payload with shares := payload.shares + rs.count (.payload p) }
  /-- the same statistics -/
  stats : g.stats = h.stats
  /-- the same limit -/
  config : g.config = h.config
  /-- the same flag -/
  stable : g.stable = h.stable
  /-- the same record of accesses -/
  strays : g.strays = h.strays

/-- The reference leads somewhere, be it to a block whose count is zero. -/
def Leads (h : Heap V) : Ref → Prop
  | .block b n => ∃ block, h.block? b = some block ∧ block.size = n
  | .payload p => ∃ payload : Payload V, h.payloads[p]? = some payload ∧ 0 < payload.shares

/-- The reference leads to something that has a count. -/
def Live (h : Heap V) : Ref → Prop
  | .block b n => ∃ block, h.block? b = some block ∧ block.size = n ∧ 0 < block.count
  | .payload p => ∃ payload : Payload V, h.payloads[p]? = some payload ∧ 0 < payload.shares

theorem Restored.refl (h : Heap V) : h.Restored h := ⟨rfl, fun _ => rfl, rfl, rfl, rfl, rfl, rfl⟩

/-- If the fault is that an operation was abandoned, it was for a block whose count is zero. -/
def Explains (h : Heap V) (f : Fault) : Prop := ∀ b, f = .abandoned b → h.count b = 0

/-- A reported error is no such fault. -/
theorem explains_error (h : Heap V) (e : HeapError) : h.Explains (.error e) := by
  intro b heq
  cases heq

/-- Nor is a count that cannot be raised. -/
theorem explains_overflow (h : Heap V) (c : BlockId) : h.Explains (.overflow c) := by
  intro b heq
  cases heq

/-- What an operation leaves that ended early. -/
structure Unwound (h : Heap V) (f : Fault) (g : Heap V) : Prop where
  /-- the heap is as it was -/
  restored : h.Restored g
  /-- and it shows what was wrong -/
  explains : h.Explains f

/-- An operation that has done nothing has nothing to undo. -/
theorem Explains.unwound {h : Heap V} {f : Fault} (hf : h.Explains f) : h.Unwound f h :=
  ⟨.refl h, hf⟩

/-! ## A block at the end -/

/-- The heap with a block at the end. -/
def withBlock (h : Heap V) (block : Block V) : Heap V :=
  { h with
    blocks := h.blocks ++ [some block]
    stats := ⟨h.stats.liveCells + block.size, h.stats.liveBlocks + 1⟩ }

section WithBlock

variable {h : Heap V} {block : Block V}

theorem block?_withBlock (h : Heap V) (block : Block V) (c : BlockId) :
    (h.withBlock block).block? c = if c = h.blocks.length then some block else h.block? c :=
  h.block?_append (some block) c

theorem block?_withBlock_of_some {b : BlockId} {other : Block V} (hb : h.block? b = some other) :
    (h.withBlock block).block? b = some other := by
  rw [block?_withBlock, if_neg (Nat.ne_of_lt (lt_of_block? hb)), hb]

theorem Leads.withBlock {r : Ref} (hr : h.Leads r) : (h.withBlock block).Leads r := by
  cases r with
  | block b n =>
    obtain ⟨other, hb, hn⟩ := hr
    exact ⟨other, block?_withBlock_of_some hb, hn⟩
  | payload p => exact hr

theorem Live.of_withBlock {r : Ref} (hr : (h.withBlock block).Live r) (hleads : h.Leads r) :
    h.Live r := by
  cases r with
  | block b n =>
    obtain ⟨other, hb, hn⟩ := hleads
    obtain ⟨other', hb', -, hpos⟩ := hr
    rw [block?_withBlock_of_some hb] at hb'
    cases hb'
    exact ⟨other, hb, hn, hpos⟩
  | payload p => exact hr

theorem Live.withBlock {r : Ref} (hr : h.Live r) : (h.withBlock block).Live r := by
  cases r with
  | block b n =>
    obtain ⟨other, hb, hn, hpos⟩ := hr
    exact ⟨other, block?_withBlock_of_some hb, hn, hpos⟩
  | payload p => exact hr

theorem Explains.of_withBlock {f : Fault} (hf : (h.withBlock block).Explains f) :
    h.Explains f := by
  intro b hb
  have hcount := hf b hb
  rcases hh : h.block? b with - | other
  · rw [Heap.count, hh]
    rfl
  · rw [Heap.count_eq hh]
    rwa [Heap.count_eq (block?_withBlock_of_some hh)] at hcount

end WithBlock

/-! ## Taking references and giving them back -/

namespace Ahead

variable {h g : Heap V} {rs : Multiset Ref}

theorem refl (h : Heap V) : h.Ahead 0 h where
  system := rfl
  block b := by cases h.block? b <;> rfl
  payload p := by cases h.payloads[p]? <;> rfl
  stats := rfl
  config := rfl
  stable := rfl
  strays := rfl

theorem restored (ha : h.Ahead 0 g) : h.Restored g where
  system := ha.system
  block b := by
    rw [ha.block]
    cases h.block? b <;> rfl
  payloads := by
    apply List.ext_getElem?
    intro p
    rw [ha.payload]
    cases h.payloads[p]? <;> rfl
  stats := ha.stats
  config := ha.config
  stable := ha.stable
  strays := ha.strays

theorem log (ha : h.Ahead rs g) (e : Event V) : h.Ahead rs (g.log e) :=
  ⟨ha.system, ha.block, ha.payload, ha.stats, ha.config, ha.stable, ha.strays⟩

theorem block?_eq (ha : h.Ahead rs g) {b : BlockId} {block : Block V}
    (hb : h.block? b = some block) :
    g.block? b = some (block.raised (Ref.countTo rs b)) := by
  rw [ha.block, hb, Option.map_some]

theorem count_eq (ha : h.Ahead rs g) {b : BlockId} {block : Block V}
    (hb : h.block? b = some block) :
    g.count b = block.count + Ref.countTo rs b :=
  Heap.count_eq (ha.block?_eq hb)

/-- A reference that is taken puts the heap further ahead. -/
theorem take [Host V] (ha : h.Ahead rs g) (r : Ref) : h.Ahead (r ::ₘ rs) (g.take r) := by
  cases r with
  | block b n =>
    refine ⟨ha.system, fun c => ?_, fun p => ?_, ha.stats, ha.config, ha.stable, ha.strays⟩
    · rw [Heap.take, block?_setCount]
      by_cases hc : c = b
      · subst hc
        rw [if_pos rfl, Ref.countTo_cons_self]
        rcases hb : h.block? c with - | block
        · rw [ha.block, hb]
          rfl
        · rw [ha.count_eq hb, ha.block?_eq hb]
          rfl
      · rw [if_neg hc, Ref.countTo_cons_of_ne hc, ha.block]
    · rw [Multiset.count_cons_of_ne Ref.noConfusion]
      exact ha.payload p
  | payload q =>
    refine ⟨ha.system, fun c => ?_, fun p => ?_, ha.stats, ha.config, ha.stable, ha.strays⟩
    · rw [Ref.countTo_cons_payload]
      exact ha.block c
    · have hnow := ha.payload p
      simp only [Heap.take, setShares]
      rw [List.getElem?_modify]
      by_cases hq : q = p
      · subst hq
        rw [Multiset.count_cons_self, shares, hnow]
        rcases h.payloads[q]? with - | payload
        · rfl
        · simp [Nat.add_assoc]
      · have hne : Ref.payload p ≠ .payload q := fun heq => hq (Ref.payload.inj heq).symm
        rw [Multiset.count_cons_of_ne hne, hnow]
        cases h.payloads[p]? <;> simp [hq]

variable [Host V]

theorem give_block {b : BlockId} {block : Block V} (ha : h.Ahead (.block b block.size ::ₘ rs) g)
    (hb : h.block? b = some block) (hpos : 0 < block.count) :
    ∃ g', (Task.drop (.block b block.size) : Task V).carryOut g = ([], g') ∧ h.Ahead rs g' := by
  have hgb := ha.block?_eq hb
  rw [Ref.countTo_cons_self] at hgb
  obtain ⟨c, hc⟩ : ∃ c, block.count + Ref.countTo rs b = c + 1 :=
    Nat.exists_eq_succ_of_ne_zero (by omega)
  refine ⟨g.setCount b (c + 1), ?_, ha.system, fun b' => ?_, fun p => ?_, ha.stats, ha.config,
    ha.stable, ha.strays⟩
  · have hexpect := expect_eq hgb
    rw [Block.size_raised] at hexpect
    have hcount : (block.raised (Ref.countTo rs b + 1)).count = c + 2 := by
      show block.count + (Ref.countTo rs b + 1) = c + 2
      omega
    simp only [Task.carryOut]
    rw [hexpect, hgb]
    simp only [hcount]
  · rw [block?_setCount]
    by_cases hb' : b' = b
    · subst hb'
      rw [if_pos rfl, hgb, hb, ← hc]
      rfl
    · rw [if_neg hb', ha.block, Ref.countTo_cons_of_ne hb']
  · have hnow := ha.payload p
    rwa [Multiset.count_cons_of_ne Ref.noConfusion] at hnow

theorem give_payload {q : PayloadId} {payload : Payload V} (ha : h.Ahead (.payload q ::ₘ rs) g)
    (hq : h.payloads[q]? = some payload) (hpos : 0 < payload.shares) :
    ∃ g', (Task.drop (.payload q) : Task V).carryOut g = ([], g') ∧ h.Ahead rs g' := by
  have hgq := ha.payload q
  rw [hq, Multiset.count_cons_self, Option.map_some] at hgq
  obtain ⟨c, hc⟩ : ∃ c, payload.shares + rs.count (.payload q) = c + 1 :=
    Nat.exists_eq_succ_of_ne_zero (by omega)
  refine ⟨g.setShares q (c + 1), ?_, ha.system, fun b => ?_, fun p => ?_, ha.stats, ha.config,
    ha.stable, ha.strays⟩
  · have hshares : payload.shares + (rs.count (.payload q) + 1) = c + 2 := by omega
    simp only [Task.carryOut]
    rw [hgq]
    simp only [hshares]
  · have hnow := ha.block b
    rwa [Ref.countTo_cons_payload] at hnow
  · simp only [setShares]
    rw [List.getElem?_modify]
    by_cases hqp : q = p
    · subst hqp
      rw [hgq, hq, ← hc]
      simp
    · have hne : Ref.payload p ≠ .payload q := fun heq => hqp (Ref.payload.inj heq).symm
      rw [ha.payload, Multiset.count_cons_of_ne hne]
      cases h.payloads[p]? <;> simp [hqp]

/-- A reference that was taken where there was a count is given back without further ado. -/
theorem give {r : Ref} (ha : h.Ahead (r ::ₘ rs) g) (hr : h.Live r) :
    ∃ g', (Task.drop r : Task V).carryOut g = ([], g') ∧ h.Ahead rs g' := by
  cases r with
  | block b n =>
    obtain ⟨block, hb, rfl, hpos⟩ := hr
    exact ha.give_block hb hpos
  | payload q =>
    obtain ⟨payload, hq, hpos⟩ := hr
    exact ha.give_payload hq hpos

/-- So are many, one after the other. -/
theorem settle_drops (rs' : List Ref) (ha : h.Ahead (rs' + rs) g) (hr : ∀ r ∈ rs', h.Live r) :
    h.Ahead rs (g.settle (rs'.map .drop)) := by
  induction rs' generalizing g with
  | nil =>
    rw [List.map_nil, settle_nil]
    rwa [Multiset.coe_nil, zero_add] at ha
  | cons r rs' ih =>
    rw [← Multiset.cons_coe, Multiset.cons_add] at ha
    obtain ⟨g', hcarry, ha'⟩ := ha.give (hr r List.mem_cons_self)
    rw [List.map_cons, settle_cons, hcarry, List.nil_append]
    exact ih ha' fun r' hr' => hr r' (List.mem_cons_of_mem r hr')

end Ahead

/-! ## Values that were acquired -/

variable [Host V]

/-- The reference of the value leads somewhere, if it owns one. -/
def LeadsFrom (h : Heap V) (v : V) : Prop := ∀ r, Host.ref v = some r → h.Leads r

/-- A heap is as another one was, but for values that have been acquired in addition. Where their
references lead to there was a count. -/
structure Acquired (h : Heap V) (vs : List V) (g : Heap V) : Prop where
  /-- their references have been taken -/
  ahead : h.Ahead (vs.filterMap Host.ref : List Ref) g
  /-- and could be taken -/
  live : ∀ r ∈ vs.filterMap Host.ref, h.Live r

namespace Acquired

variable {h g : Heap V} {vs : List V}

theorem nil (h : Heap V) : h.Acquired [] h := ⟨.refl h, List.forall_mem_nil _⟩

theorem log (ha : h.Acquired vs g) (e : Event V) : h.Acquired vs (g.log e) :=
  ⟨ha.ahead.log e, ha.live⟩

theorem perm {ws : List V} (ha : h.Acquired vs g) (hperm : vs.Perm ws) : h.Acquired ws g where
  ahead := by
    have hrefs := hperm.filterMap Host.ref
    rw [← Multiset.coe_eq_coe.mpr hrefs]
    exact ha.ahead
  live r hr := ha.live r ((hperm.filterMap Host.ref).mem_iff.mpr hr)

/-- The first of them has its reference apart from the others. -/
theorem head {v : V} (ha : h.Acquired (v :: vs) g) :
    h.Ahead (((Host.ref v).toList : Multiset Ref) + (vs.filterMap Host.ref : List Ref)) g ∧
      (∀ r ∈ (Host.ref v).toList, h.Live r) ∧ ∀ r ∈ vs.filterMap Host.ref, h.Live r := by
  have hsplit : (v :: vs).filterMap Host.ref = (Host.ref v).toList ++ vs.filterMap Host.ref := by
    rw [List.filterMap_cons]
    cases Host.ref v <;> rfl
  refine ⟨?_, fun r hr => ha.live r ?_, fun r hr => ha.live r ?_⟩
  · rw [Multiset.coe_add, ← hsplit]
    exact ha.ahead
  · rw [hsplit]
    exact List.mem_append_left _ hr
  · rw [hsplit]
    exact List.mem_append_right _ hr

/-- The first of them is given back. -/
theorem drop_head {v : V} (ha : h.Acquired (v :: vs) g) : h.Acquired vs (g.drop v) := by
  obtain ⟨hahead, hlive, hrest⟩ := ha.head
  exact ⟨Ahead.settle_drops _ hahead hlive, hrest⟩

/-- When they are dropped, the heap is as it was. -/
theorem dropAll (ha : h.Acquired vs g) : h.Restored (g.dropAll vs) := by
  induction vs generalizing g with
  | nil =>
    rw [dropAll_nil]
    exact ha.ahead.restored
  | cons v vs ih =>
    rw [dropAll_cons]
    exact ih ha.drop_head

/-- So it is when they are disowned. -/
theorem disownAll (ha : h.Acquired vs g) (holder : Holder) :
    h.Restored (g.settle (vs.map (.disown holder))) := by
  induction vs generalizing g with
  | nil =>
    rw [List.map_nil, settle_nil]
    exact ha.ahead.restored
  | cons v vs ih =>
    rw [List.map_cons, settle_cons, settle_append]
    exact ih (ha.log _).drop_head

/-- A count that is only there for the values acquired so far was there before them. -/
theorem count_pos (ha : h.Acquired vs g) {b : BlockId} {block : Block V}
    (hb : h.block? b = some block) (hpos : 0 < g.count b) : 0 < block.count := by
  have hcount := ha.ahead.count_eq hb
  by_contra hzero
  have hmore : 0 < Ref.countTo (vs.filterMap Host.ref : List Ref) b := by omega
  obtain ⟨m, hm⟩ := Ref.exists_of_countTo hmore
  obtain ⟨block', hb', -, hpos'⟩ := ha.live _ hm
  rw [hb] at hb'
  cases hb'
  exact hzero hpos'

/-- A reference can be taken where there is a count that can be raised. -/
theorem ends_copyRef (ha : h.Acquired vs g) {r : Ref} (hr : h.Leads r) :
    Ends (Heap.copyRef r g) (fun _ g' => g' = g.take r ∧ h.Live r)
      fun f g' => g' = g ∧ h.Explains f := by
  cases r with
  | payload p => exact ends_of_ok (a := ()) rfl ⟨rfl, hr⟩
  | block b n =>
    obtain ⟨block, hb, hn⟩ := hr
    have hcount := ha.ahead.count_eq hb
    rcases hcopy : Heap.copyRef (.block b n) g with ⟨f | u, g'⟩
    · rcases retainOr_eq_error hcopy with ⟨hc, rfl, rfl⟩ | ⟨-, rfl, rfl⟩
      · refine ⟨touch_eq (ha.ahead.block?_eq hb) (Nat.succ_pos _), fun b' heq => ?_⟩
        cases heq
        rw [Heap.count_eq hb]
        omega
      · exact ⟨rfl, h.explains_overflow b⟩
    · obtain ⟨hpos, -, rfl⟩ := retainOr_eq_ok hcopy
      exact ⟨rfl, block, hb, hn, ha.count_pos hb hpos⟩

/-- Another value is acquired, or its block has no count or the highest. -/
theorem ends_acquire (ha : h.Acquired vs g) {v : V} (hv : h.LeadsFrom v) (holder : Holder) :
    Ends (Heap.acquire holder v g) (fun _ g' => h.Acquired (v :: vs) g')
      fun f g' => g' = g ∧ h.Explains f := by
  have hcopy : Ends (Heap.copy v g) (fun _ g' => h.Acquired (v :: vs) g')
      fun f g' => g' = g ∧ h.Explains f := by
    rw [Heap.copy]
    rcases href : Host.ref v with - | r
    · refine ends_pure ⟨?_, ?_⟩ <;> rw [List.filterMap_cons_none href]
      · exact ha.ahead
      · exact ha.live
    · refine (ha.ends_copyRef (hv r href)).mono ?_ fun _ _ => id
      rintro - g' ⟨rfl, hr⟩
      refine ⟨?_, ?_⟩ <;> rw [List.filterMap_cons_some href]
      · exact ha.ahead.take r
      · exact List.forall_mem_cons.mpr ⟨hr, ha.live⟩
  exact hcopy.bind fun _ _ ha' => ends_update (ha'.log _)

/-- The content of a cell is acquired. -/
theorem ends_read (ha : h.Acquired vs g) {b i : Nat} {block : Block V}
    (hb : h.block? b = some block) (hi : i < block.size)
    (hstored : ∀ v ∈ block.stored, h.LeadsFrom v) :
    Ends (Heap.read b i g) (fun v g' => h.Acquired (v :: vs) g')
      fun f g' => g' = g ∧ h.Explains f := by
  have hgb := ha.ahead.block?_eq hb
  refine Ends.bind (R := fun _ g' => g' = g) (ends_update (touch_eq hgb hi)) ?_
  rintro - g' rfl
  refine Ends.bind (R := fun o g'' => o = block.value? i ∧ g'' = g') (ends_look ⟨?_, rfl⟩) ?_
  · rw [Heap.value?_eq hgb, Block.value?_eq, Block.contents_raised]
  rintro o g'' ⟨rfl, rfl⟩
  rcases hv : block.value? i with - | v
  · -- the default value owns nothing
    refine ends_pure ⟨?_, ?_⟩ <;> rw [List.filterMap_cons_none Host.ref_default]
    · exact ha.ahead
    · exact ha.live
  · have hleads := hstored v (Block.mem_stored_of_value? hv)
    exact (ha.ends_acquire hleads .caller).bind fun _ _ ha' => ends_pure ha'

/-- Reading many cells is undone if it comes to a cell that cannot be read. -/
theorem ends_readOn {b : BlockId} {block : Block V} (hb : h.block? b = some block)
    (hstored : ∀ v ∈ block.stored, h.LeadsFrom v) {n i : Nat} (hn : i + n ≤ block.size)
    (ha : h.Acquired vs g) :
    Ends (Pointer.readOn b n i vs g) (fun us g' => h.Acquired us.reverse g') h.Unwound := by
  induction n generalizing i vs g with
  | zero => exact ends_pure (by rwa [List.reverse_reverse])
  | succ n ih =>
    have hread := ha.ends_read hb (by omega : i < block.size) hstored
    refine Ends.bind (Ends.orElseUndo hread ?_) fun v g' ha' => ih (by omega) ha'
    rintro f g' ⟨rfl, hf⟩
    exact ⟨(ha.perm (List.reverse_perm vs).symm).dropAll, hf⟩

end Acquired

/-! ## Blocks that are being filled -/

/-- The last block is being filled: it has these values by now, which have been acquired, and `k`
cells that are not set yet. -/
structure Filling (h : Heap V) (block : Block V) (vs : List V) (k : Nat) (g : Heap V) : Prop where
  /-- the values have been acquired -/
  acquired : (h.withBlock block).Acquired vs g
  /-- they were there before -/
  leads : ∀ v ∈ vs, h.LeadsFrom v
  /-- the block has one owner -/
  count : block.count = 1
  /-- its cells -/
  contents : block.contents = vs.map some ++ List.replicate k none

namespace Acquired

variable {h g : Heap V} {block : Block V} {vs : List V}

/-- Values that were there before do not refer to the block at the end. -/
theorem block?_last (ha : (h.withBlock block).Acquired vs g) (hvs : ∀ v ∈ vs, h.LeadsFrom v) :
    g.block? h.blocks.length = some (block.raised 0) := by
  have hlast : (h.withBlock block).block? h.blocks.length = some block := by
    rw [block?_withBlock, if_pos rfl]
  have hnone : Ref.countTo (vs.filterMap Host.ref : List Ref) h.blocks.length = 0 := by
    by_contra hne
    obtain ⟨n, hn⟩ := Ref.exists_of_countTo (Nat.pos_of_ne_zero hne)
    obtain ⟨v, hv, href⟩ := List.mem_filterMap.mp hn
    obtain ⟨other, hother, -⟩ := hvs v hv _ href
    rw [h.block?_length] at hother
    cases hother
  rw [ha.ahead.block?_eq hlast, hnone]

/-- Where they lead to there was a count before the block was there. -/
theorem live_before (ha : (h.withBlock block).Acquired vs g) (hvs : ∀ v ∈ vs, h.LeadsFrom v) :
    ∀ r ∈ vs.filterMap Host.ref, h.Live r := by
  intro r hr
  obtain ⟨v, hv, href⟩ := List.mem_filterMap.mp hr
  exact (ha.live r hr).of_withBlock (hvs v hv r href)

/-- A cell of the block is set. -/
theorem setLast (ha : (h.withBlock block).Acquired vs g) (hvs : ∀ v ∈ vs, h.LeadsFrom v) (i : Nat)
    (o : Option V) :
    (h.withBlock (block.withValue i o)).Acquired vs (g.setValue h.blocks.length i o) where
  ahead := by
    refine ⟨ha.ahead.system, fun c => ?_, ha.ahead.payload, ha.ahead.stats.trans ?_,
      ha.ahead.config, ha.ahead.stable, ha.ahead.strays⟩
    · rw [block?_setValue, ha.ahead.block, block?_withBlock, block?_withBlock]
      by_cases hc : c = h.blocks.length
      · rw [if_pos hc, if_pos hc, if_pos hc]
        cases i <;> rfl
      · rw [if_neg hc, if_neg hc, if_neg hc]
    · rw [withBlock, withBlock, Block.size_withValue]
  live r hr := (ha.live_before hvs r hr).withBlock

/-- The block is destroyed, before the values are given back. -/
theorem destroyLast (ha : (h.withBlock block).Acquired vs g) (hvs : ∀ v ∈ vs, h.LeadsFrom v) :
    h.Acquired vs (g.destroy h.blocks.length block.size) where
  ahead := by
    refine ⟨ha.ahead.system, fun c => ?_, ha.ahead.payload, ?_, ha.ahead.config,
      ha.ahead.stable, ha.ahead.strays⟩
    · rw [block?_destroy, ha.ahead.block, block?_withBlock]
      by_cases hc : c = h.blocks.length
      · rw [if_pos hc, hc, h.block?_length]
        rfl
      · rw [if_neg hc, if_neg hc]
    · simp only [destroy, ha.ahead.stats, withBlock, Nat.add_sub_cancel]
  live := ha.live_before hvs

end Acquired

namespace Filling

variable {h g : Heap V} {block : Block V} {vs : List V} {k : Nat}

theorem size (hf : h.Filling block vs k g) : block.size = vs.length + k := by
  rw [← block.length_contents, hf.contents, List.length_append, List.length_map,
    List.length_replicate]

/-- A fresh block. -/
theorem start {n : Nat} (hn : 0 < n) (h : Heap V) : h.Filling (.fresh n) [] n (h.addBlock n) where
  acquired := by
    have hnil := (Acquired.nil (h.withBlock (.fresh n))).log (.allocated n h.blocks.length)
    rw [withBlock, Block.size_fresh hn] at hnil ⊢
    exact hnil
  leads := List.forall_mem_nil _
  count := rfl
  contents := Block.contents_fresh hn

theorem log (hf : h.Filling block vs k g) (e : Event V) : h.Filling block vs k (g.log e) :=
  ⟨hf.acquired.log e, hf.leads, hf.count, hf.contents⟩

/-- The next cell is set, or its value cannot be acquired. -/
theorem ends_store (hf : h.Filling block vs (k + 1) g) {v : V} (hv : h.LeadsFrom v) :
    Ends (Heap.store h.blocks.length vs.length v g)
      (fun _ g' => ∃ block', h.Filling block' (vs ++ [v]) k g')
      fun f g' => g' = g ∧ h.Explains f := by
  have hacquire := hf.acquired.ends_acquire (fun r hr => (hv r hr).withBlock) .cell
  refine Ends.bind (hacquire.mono (fun _ _ => id) ?_) ?_
  · rintro f g' ⟨rfl, hexplains⟩
    exact ⟨rfl, hexplains.of_withBlock⟩
  · intro _ g' ha
    have hvs : ∀ u ∈ v :: vs, h.LeadsFrom u := List.forall_mem_cons.mpr ⟨hv, hf.leads⟩
    have hlast := ha.block?_last hvs
    have hi : vs.length < (block.raised 0).size := by
      rw [Block.size_raised, hf.size]
      omega
    -- the cell was not set, so nothing is given back
    have hunset : g'.value? h.blocks.length vs.length = none := by
      rw [Heap.value?_eq hlast, Block.contents_raised, hf.contents,
        List.getElem?_append_right (by rw [List.length_map])]
      simp
    have hreplace : Heap.replace h.blocks.length vs.length v g' =
        g'.setValue h.blocks.length vs.length (some v) := by
      rw [Heap.replace, hunset]
      simp only [touch_eq hlast hi]
    refine ends_update ⟨block.withValue vs.length (some v), ?_, ?_, ?_, ?_⟩
    · rw [hreplace]
      exact (ha.setLast hvs _ _).perm (List.perm_append_singleton v vs).symm
    · exact fun u hu => hvs u ((List.perm_append_singleton v vs).mem_iff.mp hu)
    · rw [Block.count_withValue, hf.count]
    · rw [Block.contents_withValue, hf.contents, List.replicate_succ]
      simp

/-- When the pointer to the block is dropped, the block goes and the values are given back. -/
theorem dropPointer (hf : h.Filling block vs k g) :
    h.Restored (g.dropPointer (.cells h.blocks.length (vs.length + k))) := by
  have hlast := hf.acquired.block?_last hf.leads
  have hvalues : (block.raised 0).values block.size = vs := by
    have hset : (vs.map some).flatMap Option.toList = vs := by
      rw [List.flatMap_map]
      exact List.flatMap_singleton' vs
    have hunset : (List.replicate k (none : Option V)).flatMap Option.toList = [] :=
      List.flatMap_eq_nil_iff.mpr fun o ho => by
        rw [List.eq_of_mem_replicate ho]
        rfl
    rw [← block.size_raised 0, Block.values_size, Block.stored, Block.contents_raised, hf.contents,
      List.flatMap_append, hset, hunset, List.append_nil]
  have hcount : (block.raised 0).count = 1 := hf.count
  have hcarry : (Task.drop (.block h.blocks.length block.size)).carryOut g =
      (vs.map (.disown .cell), g.destroy h.blocks.length block.size) := by
    have hexpect := expect_eq hlast
    rw [Block.size_raised] at hexpect
    simp only [Task.carryOut]
    rw [hexpect, hlast]
    simp only [hcount, hvalues]
  show h.Restored (g.settle [.drop (.block h.blocks.length (vs.length + k))])
  rw [← hf.size, settle_cons, hcarry, List.append_nil]
  exact (hf.acquired.destroyLast hf.leads).disownAll .cell

/-- Filling the other cells is undone if it comes to a value that cannot be acquired. -/
theorem ends_fill {ws : List V} (hf : h.Filling block vs ws.length g)
    (hws : ∀ w ∈ ws, h.LeadsFrom w) :
    Ends ((Pointer.cells h.blocks.length (vs.length + ws.length)).fill vs.length ws g)
      (fun _ _ => True)
      fun f g' => h.Unwound f
        (g'.dropPointer (.cells h.blocks.length (vs.length + ws.length))) := by
  induction ws generalizing block vs g with
  | nil => exact ends_pure trivial
  | cons w ws ih =>
    have hslot : (Pointer.cells h.blocks.length (vs.length + (w :: ws).length)).slot? vs.length =
        .ok h.blocks.length := if_pos (by simp [Pointer.size])
    have hset := hf.ends_store (hws w List.mem_cons_self)
    refine Ends.bind (R := fun _ g' => ∃ block', h.Filling block' (vs ++ [w]) ws.length g')
      ?_ fun _ g' hg' => ?_
    · rw [Pointer.setAt, hslot]
      refine hset.mono (fun _ _ => id) ?_
      rintro f g' ⟨rfl, hexplains⟩
      exact ⟨hf.dropPointer, hexplains⟩
    · obtain ⟨block', hf'⟩ := hg'
      have hrest := ih hf' fun u hu => hws u (List.mem_cons_of_mem w hu)
      simpa [Nat.add_assoc, Nat.add_comm 1] using hrest

end Filling
end Heap

/-! ## Operations -/

theorem Attempt.Ends.of_reason? {ε σ α : Type} {out : Except ε α × σ} {Q : α → σ → Prop}
    {E : ε → σ → Prop} (hends : Ends out Q E) {e : ε} (he : reason? out.1 = some e) :
    E e out.2 := by
  obtain ⟨r, s⟩ := out
  cases r with
  | ok a => cases he
  | error e' =>
    cases he
    exact hends

variable {h : Heap V}

theorem Heap.ends_checked {α β : Type} {x : Except HeapError α} {f : α → Action V β}
    (hf : ∀ a, x = .ok a → Ends (f a h) (fun _ _ => True) h.Unwound) :
    Ends ((Pointer.checked x >>= f) h) (fun _ _ => True) h.Unwound := by
  cases x with
  | error e => exact ends_throw (explains_error h e).unwound
  | ok a => exact hf a rfl

theorem Pointer.ends_retain {b : BlockId} {block : Block V} (hb : h.block? b = some block) :
    Ends (Heap.retain b h) (fun _ _ => True) h.Unwound := by
  rcases hretain : Heap.retain b h with ⟨f | u, g⟩
  · rcases Heap.retainOr_eq_error hretain with ⟨-, rfl, rfl⟩ | ⟨-, rfl, rfl⟩
    · show h.Unwound _ (h.touch b 0)
      rw [Heap.touch_eq hb (Nat.succ_pos _)]
      exact (h.explains_error _).unwound
    · exact (Heap.explains_overflow g b).unwound
  · trivial

theorem Pointer.ends_bind {p : Pointer} (hp : ∀ b n, p = .cells b n → h.Leads (.block b n)) :
    Ends (p.bind h) (fun _ _ => True) h.Unwound := by
  cases p with
  | null => exact ends_pure trivial
  | cells b n =>
    obtain ⟨block, hb, -⟩ := hp b n rfl
    exact (ends_retain hb).bind fun _ _ _ => ends_pure trivial

variable [Host V]

namespace Heap

/-- If a block that was made cannot be filled, it is destroyed. -/
theorem ends_made {n : Nat} {filling : BlockId → Action V Unit}
    (hfilling : ∀ g, h.Filling (.fresh n) [] n g →
      Ends (filling h.blocks.length g) (fun _ _ => True)
        fun f g' => h.Unwound f (g'.dropPointer (.cells h.blocks.length n))) :
    Ends ((do
        let b ← Heap.allocate n
        (filling b).orElseUndo (·.dropPointer (.cells b n))
        Pure.pure (.cells b n) : Action V Pointer) h) (fun _ _ => True) h.Unwound := by
  rcases hn : h.shortage? n with - | e
  · have hfill := hfilling _ (.start (pos_of_shortage? hn) h)
    rw [bind_of_ok (allocate_of_room hn)]
    exact (hfill.orElseUndo fun _ _ => id).bind fun _ _ _ => ends_pure trivial
  · rw [bind_of_error (allocate_of_shortage hn)]
    exact (explains_error h e).unwound

theorem ends_store {b i : Nat} {v : V} (hv : h.LeadsFrom v) :
    Ends (Heap.store b i v h) (fun _ _ => True) h.Unwound := by
  have hacquire := (Acquired.nil h).ends_acquire hv .cell
  refine Ends.bind (hacquire.mono (fun _ _ => id) ?_) fun _ _ _ => ends_update trivial
  rintro f g ⟨rfl, hexplains⟩
  exact hexplains.unwound

theorem ends_read {b i : Nat} {block : Block V} (hb : h.block? b = some block)
    (hi : i < block.size) (hheld : ∀ v ∈ h.held, h.LeadsFrom v) :
    Ends (Heap.read b i h) (fun _ _ => True) h.Unwound := by
  have hstored : ∀ v ∈ block.stored, h.LeadsFrom v :=
    fun v hv => hheld v (Heap.mem_held.mpr (.inl ⟨b, block, hb, hv⟩))
  refine ((Acquired.nil h).ends_read hb hi hstored).mono (fun _ _ _ => trivial) ?_
  rintro f g ⟨rfl, hexplains⟩
  exact hexplains.unwound

end Heap

namespace Pointer

theorem ends_copy {p : Pointer} (hp : ∀ b n, p = .cells b n → h.Leads (.block b n)) :
    Ends (p.copy h) (fun _ _ => True) h.Unwound := by
  cases p with
  | null => exact ends_pure trivial
  | cells b n =>
    have hcopy := (Heap.Acquired.nil h).ends_copyRef (hp b n rfl)
    refine Ends.bind (hcopy.mono (fun _ _ => id) ?_) fun _ _ _ => ends_pure trivial
    rintro f g ⟨rfl, hexplains⟩
    exact hexplains.unwound

theorem ends_allocate {v : V} (hv : h.LeadsFrom v) :
    Ends (Pointer.allocate v h) (fun _ _ => True) h.Unwound := by
  refine Heap.ends_made fun g hf => ?_
  refine (hf.ends_store hv).mono (fun _ _ _ => trivial) ?_
  rintro f g' ⟨rfl, hexplains⟩
  exact ⟨hf.dropPointer, hexplains⟩

theorem ends_allocateCollection {filling : Filling V}
    (hvs : ∀ v ∈ filling.contents, h.LeadsFrom v) :
    Ends (Pointer.allocateCollection filling h) (fun _ _ => True) h.Unwound := by
  refine Heap.ends_made fun g hf => ?_
  rw [← filling.length_contents] at hf ⊢
  have hfill := hf.ends_fill hvs
  rwa [List.length_nil, Nat.zero_add] at hfill

theorem ends_get {p : Pointer} (hp : ∀ b n, p = .cells b n → h.Leads (.block b n))
    (hheld : ∀ v ∈ h.held, h.LeadsFrom v) : Ends (p.get h) (fun _ _ => True) h.Unwound := by
  refine Heap.ends_checked fun b hb => ?_
  obtain ⟨n, rfl⟩ := scalar?_eq_ok hb
  obtain ⟨block, hblock, -⟩ := hp b n rfl
  exact Heap.ends_read hblock (Nat.succ_pos _) hheld

theorem ends_getAt {p : Pointer} (hp : ∀ b n, p = .cells b n → h.Leads (.block b n)) (i : Nat)
    (hheld : ∀ v ∈ h.held, h.LeadsFrom v) : Ends (p.getAt i h) (fun _ _ => True) h.Unwound := by
  refine Heap.ends_checked fun b hb => ?_
  obtain ⟨n, rfl, hi⟩ := slot?_eq_ok hb
  obtain ⟨block, hblock, rfl⟩ := hp b n rfl
  exact Heap.ends_read hblock hi hheld

theorem ends_toList {p : Pointer} (hp : ∀ b n, p = .cells b n → h.Leads (.block b n))
    (hheld : ∀ v ∈ h.held, h.LeadsFrom v) : Ends (p.toList h) (fun _ _ => True) h.Unwound := by
  refine Heap.ends_checked fun b hb => ?_
  obtain ⟨n, rfl⟩ := block?_eq_ok hb
  obtain ⟨block, hblock, rfl⟩ := hp b n rfl
  have hstored : ∀ v ∈ block.stored, h.LeadsFrom v :=
    fun v hv => hheld v (Heap.mem_held.mpr (.inl ⟨b, block, hblock, hv⟩))
  exact (Heap.Acquired.ends_readOn hblock hstored (by rw [Nat.zero_add]; exact Nat.le_refl _)
    (.nil h)).mono (fun _ _ _ => trivial) fun _ _ => id

end Pointer

namespace Operation

/-- The arguments of an operation are there: its pointers lead to blocks, and so do the references
of its values. -/
structure Given (o : Operation V) (h : Heap V) : Prop where
  /-- the pointers -/
  pointers : ∀ p ∈ o.pointers, ∀ b n, p = .cells b n → h.Leads (.block b n)
  /-- the values -/
  values : ∀ v ∈ o.values, h.LeadsFrom v

/-- The operation is a write through a null pointer. -/
def Upgrades : Operation V → Prop
  | set .null _ => True
  | _ => False

/-- Whatever ends an operation early that is no write through a null pointer, the heap and the
pointers are as they were. -/
theorem unwound {o : Operation V} (ho : o.Given h) (hheld : ∀ v ∈ h.held, h.LeadsFrom v)
    (hupgrades : ¬ o.Upgrades) {f : Fault} (hf : (o.run h).fault? = some f) :
    (o.run h).pointers = o.pointers ∧ h.Unwound f (o.run h).heap := by
  obtain ⟨hp, hv⟩ := ho
  cases o with
  | allocate v =>
    exact ⟨rfl, (Pointer.ends_allocate (hv v (List.mem_singleton_self v))).of_reason? hf⟩
  | allocateCollection filling => exact ⟨rfl, (Pointer.ends_allocateCollection hv).of_reason? hf⟩
  | bind p => exact ⟨rfl, (Pointer.ends_bind (hp p (List.mem_singleton_self p))).of_reason? hf⟩
  | copy p => exact ⟨rfl, (Pointer.ends_copy (hp p (List.mem_singleton_self p))).of_reason? hf⟩
  | retain b n =>
    obtain ⟨block, hb, -⟩ := hp _ (List.mem_singleton_self _) b n rfl
    exact ⟨rfl, (Pointer.ends_retain hb).of_reason? hf⟩
  | acquire v =>
    have hacquire := (Heap.Acquired.nil h).ends_acquire (hv v (List.mem_singleton_self v)) .caller
    obtain ⟨hsame, hexplains⟩ := hacquire.of_reason? hf
    refine ⟨rfl, ?_⟩
    show h.Unwound f (Heap.acquire .caller v h).2
    rw [hsame]
    exact hexplains.unwound
  | get p =>
    exact ⟨rfl, (Pointer.ends_get (hp p (List.mem_singleton_self p)) hheld).of_reason? hf⟩
  | set p v =>
    cases p with
    | null => exact absurd trivial hupgrades
    | cells b n =>
      have hset : Ends ((do
          let c ← Pointer.checked (Pointer.cells b n).scalar?
          Heap.store c 0 v : Action V Unit) h) (fun _ _ => True) h.Unwound :=
        Heap.ends_checked fun c _ => Heap.ends_store (hv v (List.mem_singleton_self v))
      exact ⟨rfl, hset.of_reason? hf⟩
  | getAt p i =>
    exact ⟨rfl, (Pointer.ends_getAt (hp p (List.mem_singleton_self p)) i hheld).of_reason? hf⟩
  | setAt p i v =>
    have hset : Ends (p.setAt i v h) (fun _ _ => True) h.Unwound :=
      Heap.ends_checked fun b _ => Heap.ends_store (hv v (List.mem_singleton_self v))
    exact ⟨rfl, hset.of_reason? hf⟩
  | swap p q =>
    have hswap : Ends (p.swap q h) (fun _ _ => True) h.Unwound :=
      Heap.ends_checked fun b _ => Heap.ends_checked fun c _ => ends_update trivial
    exact ⟨rfl, hswap.of_reason? hf⟩
  | toList p =>
    exact ⟨rfl, (Pointer.ends_toList (hp p (List.mem_singleton_self p)) hheld).of_reason? hf⟩

/-- A write through a null pointer that is abandoned leaves the cell that it made, unset, and the
pointer on it. -/
theorem upgraded {v : V} (hv : h.LeadsFrom v) {b : BlockId}
    (hf : ((set .null v).run h).fault? = some (.abandoned b)) :
    h.count b = 0 ∧ ((set .null v).run h).pointers = [.cells h.blocks.length 1] ∧
      ((set .null v).run h).heap = (h.addBlock 1).log (.upgraded h.blocks.length) := by
  simp only [run, Pointer.set_null_eq] at hf ⊢
  rcases hr : h.refusal 1 with - | e
  · rw [hr] at hf
    have hfresh := (Heap.Filling.start Nat.one_pos h).log (.upgraded h.blocks.length)
    obtain ⟨hsame, hexplains⟩ := (hfresh.ends_store hv).of_reason? hf
    exact ⟨hexplains b rfl, rfl, hsame⟩
  · rw [hr] at hf
    cases hf

end Operation

/-! ## Sessions -/

/-- The session can provide the value: it owns nothing, somebody has it, or it is a pointer that the
session has. -/
def Session.Provides (s : Session Value) (v : Value) : Prop :=
  Host.ref v = none ∨ s.Has v ∨ ∃ p, v.datum = .pointer p ∧ s.Points p

/-- What is owned leads somewhere. -/
theorem Ledger.Sound.leads [Faced V] {l : Ledger V} (hl : l.Sound) {r : Ref} (hr : r ∈ l.refs) :
    l.heap.Leads r := by
  cases r with
  | block b n =>
    obtain ⟨c, hc⟩ := hl.anchored b n hr
    obtain ⟨block, hb, -, hn⟩ := Heap.exists_block_of_shape? hc
    exact ⟨block, hb, hn⟩
  | payload p =>
    obtain ⟨payload, hp⟩ : ∃ payload, l.heap.payloads[p]? = some payload :=
      ⟨_, List.getElem?_eq_getElem (hl.known p hr)⟩
    refine ⟨payload, hp, ?_⟩
    rw [hl.shared p payload hp]
    exact Multiset.count_pos.mpr hr

/-- What the heap holds leads somewhere. -/
theorem Ledger.Sound.leads_held [Faced V] {l : Ledger V} (hl : l.Sound) {v : V}
    (hv : v ∈ l.heap.held) : l.heap.LeadsFrom v :=
  fun _ hr => hl.leads (Ledger.mem_refs_of_has (.inl hv) hr)

/-- So does what a block holds. -/
theorem Ledger.Sound.leads_stored [Faced V] {l : Ledger V} (hl : l.Sound) {b : BlockId}
    {block : Block V} (hb : l.heap.block? b = some block) {v : V} (hv : v ∈ block.stored) :
    l.heap.LeadsFrom v :=
  hl.leads_held (Heap.mem_held.mpr (.inl ⟨b, block, hb, hv⟩))

theorem Session.InOrder.given {s : Session Value} {w : Written Value} (hs : s.InOrder w)
    {o : Operation Value} (hp : ∀ p ∈ o.pointers, s.Points p)
    (hv : ∀ v ∈ o.values, s.Provides v) : o.Given s.heap where
  pointers p hmem b n heq := hs.sound.leads (hs.mem_refs (heq ▸ hp p hmem))
  values v hmem r hr := by
    rcases hv v hmem with hnone | hhas | ⟨p, hpointer, hpoints⟩
    · rw [hnone] at hr
      cases hr
    · exact hs.sound.leads (Ledger.mem_refs_of_has hhas.ledger hr)
    · have href : Host.ref v = p.ref := by
        show v.ref = p.ref
        rw [Value.ref, hpointer]
      rw [href] at hr
      cases p with
      | null => cases hr
      | cells b n =>
        cases hr
        exact hs.sound.leads (hs.mem_refs hpoints)

/-- When an operation is abandoned in a session that a careful run reaches, it is for a block whose
count is zero. If it is no write through a null pointer, then all blocks are as they were, with
their counts and contents, no new one is there, the payloads and the statistics are as they were,
and the pointers that it was given are the same. A write through a null pointer leaves a new unset
cell behind, and the pointer that was null points to it. -/
theorem Reached.abandoned_unwinds {s : Session Value}
    (hs : Reached Session.stepValue ValueCommand.Careful s) {o : Operation Value}
    (hp : ∀ p ∈ o.pointers, s.Points p) (hv : ∀ v ∈ o.values, s.Provides v) {b : BlockId}
    (hf : (o.run s.heap).fault? = some (.abandoned b)) :
    s.heap.count b = 0 ∧
      (¬ o.Upgrades →
        (o.run s.heap).pointers = o.pointers ∧ s.heap.Restored (o.run s.heap).heap) ∧
      (o.Upgrades →
        (o.run s.heap).pointers = [.cells s.heap.blocks.length 1] ∧
          (o.run s.heap).heap = (s.heap.addBlock 1).log (.upgraded s.heap.blocks.length)) := by
  obtain ⟨w, hw⟩ := hs.inOrder
  have hgiven := hw.given hp hv
  have hheld : ∀ v ∈ s.heap.held, s.heap.LeadsFrom v := fun _ => hw.sound.leads_held
  by_cases hupgrades : o.Upgrades
  · obtain ⟨v, rfl⟩ : ∃ v, o = .set .null v := by
      cases o with
      | set p v =>
        cases p with
        | null => exact ⟨v, rfl⟩
        | cells b n => exact hupgrades.elim
      | _ => exact hupgrades.elim
    obtain ⟨hcount, hpointers, hheap⟩ :=
      Operation.upgraded (hgiven.values v (List.mem_singleton_self v)) hf
    exact ⟨hcount, fun hnot => absurd hupgrades hnot, fun _ => ⟨hpointers, hheap⟩⟩
  · obtain ⟨hpointers, hunwound⟩ := Operation.unwound hgiven hheld hupgrades hf
    exact ⟨hunwound.explains b rfl, fun _ => ⟨hpointers, hunwound.restored⟩,
      fun hyes => absurd hyes hupgrades⟩

/-- A block whose count is zero, and one whose count is not. A collection is made of a pointer to
the second, a value without a reference and a pointer to the first, which is where it is abandoned:
nothing is left of it. -/
theorem abandoned_collection_unwinds :
    let s := Session.runValue [.common (.allocate "a" (.int 5)), .common (.allocate "b" (.int 7)),
      .common (.rawOf "a" "u"), .common (.rawExpire "u")] (.empty (.ofMemory 100))
    let o := Operation.allocateCollection
      (.values [.pointer (.cells 1 1), default, .pointer (.cells 0 1)])
    (o.run s.heap).fault? = some (.abandoned 0) ∧ s.heap.count 0 = 0 ∧
      s.heap.Restored (o.run s.heap).heap := by
  intro s o
  have hs : Reached Session.stepValue ValueCommand.Careful s :=
    ((((Reached.start _).step trivial).step trivial).step trivial).step trivial
  have hfault : (o.run s.heap).fault? = some (.abandoned 0) := by decide +kernel
  have ha : s.Points (.cells 0 1) := .inr (.inl ⟨"a", by decide +kernel⟩)
  have hb : s.Points (.cells 1 1) := .inr (.inl ⟨"b", by decide +kernel⟩)
  have hvalues : ∀ v ∈ o.values, s.Provides v := by
    refine List.forall_mem_cons.mpr ⟨.inr (.inr ⟨_, rfl, hb⟩), ?_⟩
    refine List.forall_mem_cons.mpr ⟨.inl rfl, ?_⟩
    exact List.forall_mem_singleton.mpr (.inr (.inr ⟨_, rfl, ha⟩))
  obtain ⟨hcount, hunwinds, -⟩ := hs.abandoned_unwinds (List.forall_mem_nil _) hvalues hfault
  exact ⟨hfault, hcount, (hunwinds id).2⟩

/-- The same pointer written through a null pointer: the write is abandoned, but a block is there
that was not there before, its cell was never written, the statistics count it, and the pointer is
not null any more. -/
theorem abandoned_write_leaves_unset_cell :
    let s := Session.runValue [.common (.allocate "a" (.int 5)), .common (.rawOf "a" "u"),
      .common (.rawExpire "u"), .common (.null "z")] (.empty (.ofMemory 100))
    let o := Operation.set .null (.pointer (.cells 0 1))
    let left := o.run s.heap
    Reached Session.stepValue ValueCommand.Careful s ∧ s.handles.lookup "z" = some .null ∧
      left.fault? = some (.abandoned 0) ∧ left.pointers = [.cells 1 1] ∧
      left.heap.count 1 = 1 ∧ left.heap.value? 1 0 = none ∧
      s.heap.stats = ⟨1, 1⟩ ∧ left.heap.stats = ⟨2, 2⟩ ∧
      ¬ (left.pointers = o.pointers ∧ s.heap.Restored left.heap) := by
  intro s o left
  have hs : Reached Session.stepValue ValueCommand.Careful s :=
    ((((Reached.start _).step trivial).step trivial).step trivial).step trivial
  have hbefore : s.heap.stats = ⟨1, 1⟩ := by decide +kernel
  have hafter : left.heap.stats = ⟨2, 2⟩ := by decide +kernel
  refine ⟨hs, by decide +kernel, by decide +kernel, by decide +kernel, by decide +kernel, ?_,
    hbefore, hafter, ?_⟩
  · exact Option.isNone_iff_eq_none.mp (by decide +kernel)
  · rintro ⟨-, hrestored⟩
    have hstats := hrestored.stats
    rw [hbefore, hafter] at hstats
    exact absurd hstats (by decide)

end CountedCells

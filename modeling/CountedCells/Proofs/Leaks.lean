import CountedCells.Proofs.Closing
import Mathlib.Algebra.Order.BigOperators.Group.Multiset
import Mathlib.Algebra.Order.Group.Nat
import Mathlib.Data.Set.Finite.Basic
import Mathlib.Order.WellFounded

/-!
# Leaks: exactly the cyclic garbage

When all owners of a session are dropped, some blocks may stay behind. They are the blocks that can
be reached from a cycle of pointers (`Heap.FromCycle`), and no others.

Nothing on the way from a cycle is ever released: the block before it is there by the same argument
and holds a pointer to it, so the reference that is given back was not the last one
(`Yields.survives`). The other way round, a block that is left has an owner, and there is none
outside the heap. The owner is a cell, or it sits inside a payload, and then so does the value that
shares the payload, until a cell is found: every block that is left has one before it that is left,
too. As there are finitely many, going back leads to a cycle (`exists_cycle_of_pred`).
-/

namespace CountedCells

open Relation

variable {V : Type} [Host V] [Faced V]

/-! ## Cycles of pointers -/

namespace Heap

/-- One block points to another: it is there, and one of its cells holds a pointer to the other,
bare or inside a compound value. -/
def PointsTo (h : Heap V) (a b : BlockId) : Prop :=
  ∃ block, h.block? a = some block ∧ ∃ v ∈ block.stored, ∃ n, (face v).Holds (.cells b n)

/-- The block can be reached, in any number of steps, from one that lies on a cycle. -/
def FromCycle (h : Heap V) (b : BlockId) : Prop :=
  ∃ c, TransGen h.PointsTo c c ∧ ReflTransGen h.PointsTo c b

/-- Before a block that is reached from a cycle there is another one. -/
theorem FromCycle.exists_pred {h : Heap V} {b : BlockId} (hb : h.FromCycle b) :
    ∃ a, h.FromCycle a ∧ h.PointsTo a b := by
  obtain ⟨c, hc, hcb⟩ := hb
  rcases ReflTransGen.cases_tail hcb with rfl | ⟨a, hca, hab⟩
  · obtain ⟨a, hba, hab⟩ := TransGen.tail'_iff.mp hc
    exact ⟨a, ⟨_, hc, hba⟩, hab⟩
  · exact ⟨a, ⟨c, hc, hca⟩, hab⟩

theorem PointsTo.of_contents {h : Heap V} {a b : BlockId} {block before : Block V}
    (hbefore : h.block? a = some before) (hcontents : block.contents = before.contents) {v : V}
    (hv : v ∈ block.stored) {n : Nat} (hp : (face v).Holds (.cells b n)) : h.PointsTo a b := by
  refine ⟨before, hbefore, v, ?_, n, hp⟩
  rwa [Block.stored, ← hcontents]

/-- Pointers that are there when references were given back were there before. -/
theorem PointsTo.of_yields {l l' : Ledger V} (hy : Yields l l') {a b : BlockId}
    (hab : l'.heap.PointsTo a b) : l.heap.PointsTo a b := by
  obtain ⟨block, hblock, v, hv, n, hp⟩ := hab
  obtain ⟨before, hbefore, hcontents⟩ := hy.contents hblock
  exact .of_contents hbefore hcontents hv hp

theorem FromCycle.of_yields {l l' : Ledger V} (hy : Yields l l') {b : BlockId}
    (hb : l'.heap.FromCycle b) : l.heap.FromCycle b := by
  obtain ⟨c, hc, hcb⟩ := hb
  have hmono : l'.heap.PointsTo ≤ l.heap.PointsTo := fun _ _ => .of_yields hy
  exact ⟨c, TransGen.mono hmono _ _ hc, ReflTransGen.mono hmono _ _ hcb⟩

end Heap

/-! ## What a cycle keeps -/

omit [Faced V] in
/-- A reference that is about to be given back is not the last one if the heap holds another. -/
theorem Ledger.two_le_ownersOf {h : Heap V} {os : Multiset (Owner V)} {w : Written V} {u : V}
    {b n m : Nat} (hu : u ∈ h.held) (hr : Host.ref u = some (.block b m)) :
    2 ≤ Ledger.ownersOf ⟨h, {.ref (.block b n)} + os, w⟩ b :=
  Ledger.two_le_countP hu hr rfl rfl

/-- Whatever is given back, what is reached from a cycle stays. -/
theorem Yields.survives {l l' : Ledger V} (hl : l.Sound) (he : l.Exact) (hy : Yields l l')
    {b : BlockId} (hb : l.heap.FromCycle b) : ∃ block, l'.heap.block? b = some block := by
  -- for all blocks at once, since whether one stays depends on the one before it
  induction hy generalizing b with
  | refl =>
    obtain ⟨a, -, block, hblock, v, hv, n, hp⟩ := hb.exists_pred
    have hhas : l.Has v := .inl (Heap.mem_held.mpr (.inl ⟨a, block, hblock, hv⟩))
    obtain ⟨c, hc⟩ := hl.anchored b n (hl.mem_refs_of_holds hhas hp)
    obtain ⟨target, htarget, -⟩ := Heap.exists_block_of_shape? hc
    exact ⟨target, htarget⟩
  | tail hy hstep ih =>
    have hmid := Moves.sound (Yields.moves hy) hl
    have hexact := Moves.tally countRule_exactly (Yields.moves hy) hl he
    obtain ⟨block, hblock⟩ := ih hb
    cases hstep with
    | part => exact ⟨block, hblock⟩
    | lapse hc => exact ⟨block, hblock⟩
    | @task h os w t =>
      by_contra hgone
      obtain ⟨n, rfl, hcount⟩ := t.eq_drop_of_gone h hblock
        (Option.eq_none_iff_forall_ne_some.mpr fun next hnext => hgone ⟨next, hnext⟩)
      -- the block before still holds its pointer, so there are two owners
      obtain ⟨a, ha, before, hbefore, v, hv, m, hp⟩ := hb.exists_pred
      obtain ⟨source, hsource⟩ := ih ha
      obtain ⟨before', hbefore', hcontents⟩ := Yields.contents hy hsource
      rw [hbefore] at hbefore'
      cases hbefore'
      have hstored : v ∈ source.stored := by rwa [Block.stored, hcontents]
      have hheld : v ∈ h.held := Heap.mem_held.mpr (.inl ⟨a, source, hsource, hstored⟩)
      obtain ⟨u, hu, href⟩ := hmid.exists_owner (.inl hheld) hp
      have htwo : 2 ≤ Ledger.ownersOf ⟨h, {Owner.ofTask (.drop (.block b n))} + os, w⟩ b :=
        Ledger.two_le_ownersOf (hu.elim (fun heq => heq ▸ hheld) id) href
      have hone := (hexact b _ _ (Heap.shape?_eq hblock)).1
      rw [← hone, hcount] at htwo
      exact absurd htwo (by decide)

/-! ## What keeps a block in the end -/

section Alone

variable {h : Heap V} {w : Written V}

/-- Where there are no owners outside, every value that the heap holds sits in a cell, or inside a
value that does. -/
theorem Ledger.Sound.exists_stored (hl : Ledger.Sound ⟨h, 0, w⟩) {N : Nat}
    (hN : ∀ u ∈ h.held, sizeOf (face u) ≤ N) {v : V} (hv : v ∈ h.held) :
    ∃ a block, h.block? a = some block ∧
      ∃ u ∈ block.stored, ∀ p, (face v).Holds p → (face u).Holds p := by
  rcases Heap.mem_held.mp hv with ⟨a, block, hblock, hstored⟩ | ⟨q, payload, hq, hpart⟩
  · exact ⟨a, block, hblock, v, hstored, fun _ => id⟩
  · -- a payload with parts is shared, by a value that is larger
    have hshared : 0 < Ledger.sharersOf ⟨h, 0, w⟩ q := by
      rw [← hl.shared q payload hq]
      refine Nat.pos_of_ne_zero fun hzero => ?_
      rw [hl.spent q payload hq hzero] at hpart
      cases hpart
    obtain ⟨u, hu, href⟩ : ∃ u ∈ h.held, Host.ref u = some (.payload q) := by
      have hmem := Multiset.count_pos.mp hshared
      rw [Ledger.refs, Owner.refs_zero, add_zero] at hmem
      exact (Multiset.mem_filterMap _ _).mp hmem
    obtain ⟨payload', hq', hchildren⟩ := hl.backed u (.inl hu) q href
    rw [hq] at hq'
    cases hq'
    have hinside : face v ∈ (face u).children := hchildren ▸ List.mem_map_of_mem hpart
    have hlt := Datum.sizeOf_lt_of_mem_children hinside
    have hle := hN u hu
    obtain ⟨a, block, hblock, t, ht, hholds⟩ := hl.exists_stored hN hu
    exact ⟨a, block, hblock, t, ht, fun p hp => hholds p (.inside hinside hp)⟩
termination_by N - sizeOf (face v)

/-- Where there are no owners outside, something points to every block. -/
theorem Ledger.Sound.exists_pointsTo (hl : Ledger.Sound ⟨h, 0, w⟩) (he : Ledger.Exact ⟨h, 0, w⟩)
    {b : BlockId} {block : Block V} (hb : h.block? b = some block) : ∃ a, h.PointsTo a b := by
  obtain ⟨hcount, hpos⟩ := he b _ _ (Heap.shape?_eq hb)
  rw [hcount] at hpos
  obtain ⟨r, hr, hrb⟩ := Multiset.countP_pos.mp hpos
  rw [Ledger.refs, Owner.refs_zero, add_zero] at hr
  obtain ⟨v, hv, href⟩ := (Multiset.mem_filterMap _ _).mp hr
  cases r with
  | payload p => cases hrb
  | block c n =>
    cases hrb
    -- the owner need not be in a cell, but the value around it is
    have hholds : (face v).Holds (.cells b n) := by
      rw [Faced.ref_eq_block.mp href]
      exact .here
    let N := (h.held.map fun u => sizeOf (face u)).sum
    have hN : ∀ u ∈ h.held, sizeOf (face u) ≤ N := fun u hu =>
      Multiset.le_sum_of_mem (Multiset.mem_map_of_mem (fun u => sizeOf (face u)) hu)
    obtain ⟨a, source, hsource, u, hu, hmore⟩ := hl.exists_stored hN hv
    exact ⟨a, source, hsource, u, hu, n, hmore _ hholds⟩

end Alone

/-- Where everything has something before it, and there is only so much of it, everything is reached
from a cycle. -/
theorem exists_cycle_of_pred {α : Type} {r : α → α → Prop} {S : Finset α}
    (hpred : ∀ b ∈ S, ∃ a ∈ S, r a b) {b : α} (hb : b ∈ S) :
    ∃ c, TransGen r c c ∧ ReflTransGen r c b := by
  by_contra hnone
  let T : Set α := { b | b ∈ S ∧ ¬ ∃ c, TransGen r c c ∧ ReflTransGen r c b }
  have hfinite : Finite T := S.finite_toSet.subset fun _ hb => hb.1
  let before (a b : T) : Prop := TransGen r a b
  have htrans : IsTrans T before := ⟨fun _ _ _ => TransGen.trans⟩
  have hirrefl : Std.Irrefl before := ⟨fun b hb => b.2.2 ⟨b, hb, .refl⟩⟩
  obtain ⟨m, -, hmin⟩ :=
    (Finite.wellFounded_of_trans_of_irrefl before).has_min Set.univ ⟨⟨b, hb, hnone⟩, trivial⟩
  obtain ⟨a, ha, ham⟩ := hpred m m.2.1
  -- nothing before the first one is left out, so it is reached from a cycle after all
  refine m.2.2 (by_contra fun hm => ?_)
  refine hmin ⟨a, ha, fun ⟨c, hc, hca⟩ => hm ⟨c, hc, hca.tail ham⟩⟩ trivial (.single ham)

/-- When no owners are left outside, what is left is what is reached from a cycle. -/
theorem Yields.survivors {l : Ledger V} {h : Heap V} {w : Written V} (hl : l.Sound) (he : l.Exact)
    (hy : Yields l ⟨h, 0, w⟩) (b : BlockId) :
    (∃ block, h.block? b = some block) ↔ l.heap.FromCycle b := by
  refine ⟨fun hb => ?_, fun hb => hy.survives hl he hb⟩
  have hend := Moves.sound hy.moves hl
  have hexact : Ledger.Exact ⟨h, 0, w⟩ := Moves.tally countRule_exactly hy.moves hl he
  refine Heap.FromCycle.of_yields hy (exists_cycle_of_pred (S := h.living) (fun b hb => ?_)
    (Heap.mem_living.mpr hb))
  obtain ⟨block, hblock⟩ := Heap.mem_living.mp hb
  obtain ⟨a, source, hsource, hv⟩ := hend.exists_pointsTo hexact hblock
  exact ⟨a, Heap.mem_living.mpr ⟨source, hsource⟩, source, hsource, hv⟩

/-- When no owners are left outside, the statistics tell what is left, with the sizes of before. -/
theorem Yields.stats_survivors {l : Ledger V} {h : Heap V} {w : Written V} (hl : l.Sound)
    (hy : Yields l ⟨h, 0, w⟩) (hacc : l.heap.Accounted) :
    h.stats = ⟨∑ b ∈ h.living, l.heap.sizeAt b, h.living.card⟩ := by
  have hsize : ∀ b ∈ h.living, h.sizeAt b = l.heap.sizeAt b := by
    intro b hb
    obtain ⟨block, hblock⟩ := Heap.mem_living.mp hb
    obtain ⟨before, hbefore, hcontents⟩ := hy.contents hblock
    have hlength := congrArg List.length hcontents
    rw [Block.length_contents, Block.length_contents] at hlength
    rw [Heap.sizeAt, Heap.sizeAt, hblock, hbefore]
    exact hlength
  have hend : h.Accounted := Moves.keeps Heap.kept_accounted hy.moves hl hacc
  rw [← Finset.sum_congr rfl hsize]
  exact hend

/-! ## Sessions -/

/-- When all owners are dropped after a run that sets no count by hand, exactly the blocks stay that
are reached from a cycle as it was before, and the statistics are their number and the number of
their cells. Without cycles nothing stays. -/
theorem Reached.leaks {s : Session Value}
    (hs : Reached Session.stepValue (fun c _ => c.Steady) s) {h : Heap Value} (hd : s.Dropped h) :
    ∃ leaked : Finset BlockId, (∀ b, b ∈ leaked ↔ s.heap.FromCycle b) ∧
      (∀ b, (∃ block, h.block? b = some block) ↔ b ∈ leaked) ∧
      h.stats = ⟨∑ b ∈ leaked, s.heap.sizeAt b, leaked.card⟩ ∧
      ((∀ c, ¬ TransGen s.heap.PointsTo c c) → h.stats = ⟨0, 0⟩) := by
  obtain ⟨-, w, hw, he, -⟩ := hs.exact
  have hy := hd.yields hw
  have hsurvivors := hy.survivors hw.sound he
  have hleaked (b : BlockId) : b ∈ h.living ↔ s.heap.FromCycle b :=
    Heap.mem_living.trans (hsurvivors b)
  have hstats := hy.stats_survivors hw.sound hw.accounted
  refine ⟨h.living, hleaked, fun b => Heap.mem_living.symm, hstats, fun hacyclic => ?_⟩
  have hnone : h.living = ∅ := Finset.eq_empty_of_forall_notMem fun b hb => by
    obtain ⟨c, hc, -⟩ := (hleaked b).mp hb
    exact hacyclic c hc
  rw [hstats, hnone]
  rfl

/-- A cell in a list in itself leaks, and takes along the cell next to it in the list; a cell that
points to one of them does not. -/
theorem self_reference_leaks :
    let s := Session.runValue [.common (.allocate "a" (.int 1)), .common (.allocate "b" (.int 2)),
      .common (.set "a" (.list [.handle "a", .handle "b"])),
      .common (.allocate "c" (.handle "b"))] (.empty (.ofMemory 100))
    let last := s.runValue [.common (.drop "b"), .common (.drop "a"), .common (.drop "c")]
    last.heap.stats = ⟨2, 2⟩ ∧ s.heap.FromCycle 0 ∧ s.heap.FromCycle 1 ∧ ¬ s.heap.FromCycle 2 := by
  intro s last
  have hs : Reached Session.stepValue (fun c _ => c.Steady) s :=
    (Reached.start _).runBy (by simp [ValueCommand.Steady, Command.Steady])
  have hdropped : s.Dropped last.heap := .commands
    (by simp [ValueCommand.GivesUp, Command.GivesUp]) (by decide +kernel)
    (List.isEmpty_iff.mp (by decide +kernel)) (by decide +kernel)
  obtain ⟨leaked, hcycle, hstays, -, -⟩ := hs.leaks hdropped
  have hleft (b : BlockId) : s.heap.FromCycle b ↔ (last.heap.block? b).isSome = true := by
    rw [← hcycle, ← hstays, Option.isSome_iff_exists]
  refine ⟨by decide +kernel, (hleft 0).mpr ?_, (hleft 1).mpr ?_, fun h => ?_⟩
  · decide +kernel
  · decide +kernel
  · exact absurd ((hleft 2).mp h) (by decide +kernel)

end CountedCells

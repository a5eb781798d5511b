import CountedCells.Proofs.Runs

/-!
# Safety: nothing dangles

In every session that a careful run reaches, all pointers anywhere are null or lead to a block that
is there, with the number of cells that it was made with (`Reached.no_dangling`): the pointers of
handles and raw blocks, and those inside the values of variables, cells and payloads, however deep
they sit. So no access ever strayed, and no release was told a wrong number of cells.

That counts may be zero does not matter: such a block is never destroyed, and a count that is not
zero covers all owners. Nor does it matter that counts may be set to the highest 64-bit number: such
a count is never raised, so none goes beyond it or starts again from zero. For pointers that sit
inside compound values the argument goes down the payloads: a value finds its parts in its payload,
and there they own what they point to (`Ledger.Sound.exists_owner`).
-/

namespace CountedCells

section

variable {V : Type}

/-- A pointer is null or leads to a block that is there, with the number of cells that the block was
made with. -/
def Heap.Valid (h : Heap V) (p : Pointer) : Prop :=
  ∀ b n, p = .cells b n → 1 ≤ n ∧ (∃ block, h.block? b = some block ∧ block.size = n) ∧
    ∀ m, .allocated m b ∈ h.trace ↔ m = n

variable [Host V] [Faced V]

/-- A ledger where nothing dangles and nothing strayed. -/
structure Ledger.Safe (l : Ledger V) : Prop where
  /-- pointers that are owned as such are valid -/
  owned : ∀ b n, Owner.ref (.block b n) ∈ l.owners → l.heap.Valid (.cells b n)
  /-- pointers inside values are valid -/
  inside : ∀ v p, l.Has v → (face v).Holds p → l.heap.Valid p
  /-- cells that are not the first have a count of one -/
  rest : ∀ b block, l.heap.block? b = some block → ∀ c ∈ block.rest, c.count = 1
  /-- the count in the first cell is zero or covers the owners, and it is a 64-bit number -/
  covered : ∀ b block, l.heap.block? b = some block → Covered block.count (l.ownersOf b)
  /-- every access found what it relied on -/
  strays : l.heap.strays = []

variable {l : Ledger V}

/-- Whatever is owned is valid. -/
theorem Ledger.Sound.valid (hl : l.Sound) (ha : l.heap.Unaltered) {b : BlockId} {n : Nat}
    (hr : .block b n ∈ l.refs) : l.heap.Valid (.cells b n) := by
  rintro b' n' heq
  cases heq
  obtain ⟨c, hc⟩ := hl.anchored b n hr
  obtain ⟨block, hb, -, rfl⟩ := Heap.exists_block_of_shape? hc
  exact ⟨Nat.succ_pos _, ⟨block, hb, rfl⟩, ha.size b block hb⟩

theorem Ledger.Sound.safe (hl : l.Sound) (ha : l.heap.Unaltered) (hs : l.heap.strays = []) :
    l.Safe where
  owned b n hr := hl.valid ha (Multiset.mem_add.mpr (.inr (Owner.mem_refs.mpr ⟨_, hr, rfl⟩)))
  inside v p hv hp := by
    cases p with
    | null => nofun
    | cells b n => exact hl.valid ha (hl.mem_refs_of_holds hv hp)
  rest := ha.rest
  covered b _ hb := hl.counted b _ _ (Heap.shape?_eq hb)
  strays := hs

end

/-- A session in order is safe, whatever moves are made from there. -/
theorem Session.InOrder.safe {s : Session Value} {w : Written Value} (hs : s.InOrder w)
    {l : Ledger Value} (hl : Moves (s.ledger w) l) : l.Safe :=
  (Moves.sound hl hs.sound).safe (Moves.keeps Heap.kept_unaltered hl hs.sound hs.unaltered)
    (Moves.keeps (Heap.kept_strays []) hl hs.sound hs.strays)

/-- No access ever dangles, in no careful run. Between commands this holds of everything that the
session names, and while a command runs of everything that the command holds as well. -/
theorem Reached.no_dangling {s : Session Value}
    (hs : Reached Session.stepValue ValueCommand.Careful s) :
    (∀ e ∈ s.handles, s.heap.Valid e.2) ∧
    (∀ e ∈ s.raws, s.heap.Valid (.cells e.2.block e.2.size)) ∧
    (∀ v p, s.Has v → v.datum.Holds p → s.heap.Valid p) ∧
    (∀ b block, s.heap.block? b = some block → ∀ c ∈ block.rest, c.count = 1) ∧
    (∀ b block, s.heap.block? b = some block →
      (block.count = 0 ∨ s.ownersOf b ≤ block.count) ∧ block.count < 2 ^ 64) ∧
    s.heap.strays = [] ∧
    ∀ c : ValueCommand, c.Steady → c.Careful s →
      s.Throughout Ledger.Safe (s.stepValue c).2 := by
  obtain ⟨w, hw⟩ := hs.inOrder
  have hsafe : (s.ledger w).Safe := hw.safe .refl
  refine ⟨fun e he => ?_, fun e he => ?_, fun v p hv => hsafe.inside v p hv.ledger, hsafe.rest,
    fun b block hb => ?_, hw.strays, fun c hc hcareful => ?_⟩
  · rintro b n hp
    refine hsafe.owned b n ?_ b n rfl
    have hmem : Owner.ref (V := Value) (.block b n) ∈
        Entries.gather Owner.ofPointer s.handles := by
      refine Entries.mem_gather he ?_
      rw [hp]
      exact Multiset.mem_singleton_self _
    exact Multiset.mem_add.mpr (.inl (Multiset.mem_add.mpr (.inl hmem)))
  · refine hsafe.owned _ _ (Multiset.mem_add.mpr (.inr (Entries.mem_gather he ?_)))
    exact Multiset.mem_replicate.mpr ⟨Nat.ne_of_gt (hw.proper e he), rfl⟩
  · rw [← Session.ownersOf_ledger hw.sound]
    exact hsafe.covered b block hb
  · obtain ⟨w', -, hmoves⟩ := hw.step hc hcareful.sensible
    exact .of_moves hmoves fun l hl => hw.safe hl

/-- A block is damaged and put right, and then reached through an address. Where its count is set to
the highest instead, no more pointers to it are made. -/
theorem rebuilt_after_damage_is_valid :
    let damaged := Session.runValue [.common (.allocate "a" (.int 5)), .common (.rawOf "a" "u"),
      .common (.rawExpire "u"), .common (.copy "b" "a")] (.empty (.ofMemory 100))
    let s := damaged.runValue [.common (.rawRestore "u" 2), .common (.rebuild "b" (.raw "u") 1)]
    let highest := s.runValue [.common (.rawRestore "u" 18446744073709551615),
      .common (.bind "c" "a"), .common (.copy "d" "a")]
    damaged.heap.count 0 = 0 ∧ s.handles.lookup "b" = some (.cells 0 1) ∧
      highest.heap.count 0 = 18446744073709551615 ∧ highest.handles.length = 2 ∧
      ∀ e ∈ s.handles, s.heap.Valid e.2 := by
  intro damaged s highest
  have hdamaged : Reached Session.stepValue ValueCommand.Careful damaged :=
    ((((Reached.start _).step trivial).step trivial).step trivial).step trivial
  have hrestored : Reached Session.stepValue ValueCommand.Careful
      (damaged.stepValue (.common (.rawRestore "u" 2))).2 := by
    refine hdamaged.step fun r hr => .inr ?_
    have hu : damaged.raws.lookup "u" = some ⟨0, 1, 1⟩ := by decide +kernel
    rw [hu] at hr
    cases hr
    decide +kernel
  have hs : Reached Session.stepValue ValueCommand.Careful s := by
    refine hrestored.step fun b hb => ?_
    have hu : (Origin.raw "u").target?
        (damaged.stepValue (.common (.rawRestore "u" 2))).2.toRegisters = some (0, 1) := by
      decide +kernel
    rw [hu] at hb
    cases hb
    decide +kernel
  exact ⟨by decide +kernel, by decide +kernel, by decide +kernel, by decide +kernel,
    hs.no_dangling.1⟩

end CountedCells

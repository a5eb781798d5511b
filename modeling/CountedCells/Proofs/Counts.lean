import CountedCells.Proofs.Runs

/-!
# Counts: they are exact

In every session that a steady run reaches, the count of a block is the number of its owners, and a
block is there exactly as long as it has owners (`Reached.counts_exact`). The owners of a block are
handles, references of raw blocks, and bare pointers in variables, in set cells and inside shared
payloads. A payload counts once, however many values share it, and is counted itself by the values
that share it.

While a command runs, what it holds for the time being are owners too. A command is made of moves,
and the counts are exact after each of them; in particular a cascade never finds a count that is
wrong, wherever it has come to (`Ledger.Exact.carryOut`).
-/

namespace CountedCells

/-- Counts and owners agree, of blocks as of payloads. -/
structure Ledger.Balanced {V : Type} [Host V] [Faced V] (l : Ledger V) : Prop where
  /-- the count of a block is the number of its owners -/
  counts : ∀ b block, l.heap.block? b = some block → block.count = l.ownersOf b
  /-- a block is there as long as it has owners, and no longer -/
  lasts : ∀ b, l.heap.block? b = none ↔ l.ownersOf b = 0
  /-- the count of a payload is the number of values that share it -/
  shares : ∀ (p : PayloadId) (payload : Payload V), l.heap.payloads[p]? = some payload →
    payload.shares = l.sharersOf p
  /-- a payload holds the parts of the values that share it -/
  parts : ∀ v p, l.Has v → Host.ref v = some (.payload p) → ∃ payload : Payload V,
    l.heap.payloads[p]? = some payload ∧ (face v).children = payload.parts.map face

section

variable {V : Type} [Host V] [Faced V] {l : Ledger V}

theorem Ledger.Exact.balanced (he : l.Exact) (hl : l.Sound) : l.Balanced where
  counts b _ hb := (he b _ _ (Heap.shape?_eq hb)).1
  lasts := he.block?_eq_none_iff hl
  shares := hl.shared
  parts v p hv hp := hl.backed v hv p hp

/-- A cascade leaves counts exact with each task that it carries out. -/
theorem Ledger.Exact.carryOut {h : Heap V} {os : Multiset (Owner V)} {w : Written V} {t : Task V}
    {ts : List (Task V)} (hl : Ledger.Sound ⟨h, Owner.ofTasks (t :: ts) + os, w⟩)
    (he : Ledger.Exact ⟨h, Owner.ofTasks (t :: ts) + os, w⟩) :
    Ledger.Balanced ⟨(t.carryOut h).2, Owner.ofTasks ((t.carryOut h).1 ++ ts) + os, w⟩ := by
  have hmove := (Yield.first h t ts os w).move
  exact Exact.balanced (hmove.tally countRule_exactly hl he) (hmove.sound hl)

end

/-- Reference counts are exact in every session that is reached without setting a count by hand. In
between, while a command runs, they are exact as well. -/
theorem Reached.counts_exact {s : Session Value}
    (hs : Reached Session.stepValue (fun c _ => c.Steady) s) :
    (∀ b block, s.heap.block? b = some block → block.count = s.ownersOf b) ∧
    (∀ b, s.heap.block? b = none ↔ s.ownersOf b = 0) ∧
    (∀ (p : PayloadId) (payload : Payload Value), s.heap.payloads[p]? = some payload →
      payload.shares = s.sharersOf p) ∧
    (∀ v p, s.Has v → v.ref = some (.payload p) → ∃ payload : Payload Value,
      s.heap.payloads[p]? = some payload ∧ v.datum.children = payload.parts.map Value.datum) ∧
    ∀ c : ValueCommand, c.Steady → s.Throughout Ledger.Balanced (s.stepValue c).2 := by
  obtain ⟨-, w, hw, he, -⟩ := hs.exact
  have hbalanced := he.balanced hw.sound
  refine ⟨fun b block hb => ?_, fun b => ?_, fun p payload hp => ?_, fun v p hv => ?_, ?_⟩
  · rw [← Session.ownersOf_ledger hw.sound]
    exact hbalanced.counts b block hb
  · rw [← Session.ownersOf_ledger hw.sound]
    exact hbalanced.lasts b
  · rw [← Session.sharersOf_ledger hw.sound]
    exact hbalanced.shares p payload hp
  · exact hbalanced.parts v p hv.ledger
  · intro c hc
    obtain ⟨w', -, hmoves⟩ := hw.step hc (hw.sensible he c)
    refine .of_moves hmoves fun l hl => Ledger.Exact.balanced ?_ (Moves.sound hl hw.sound)
    exact Moves.tally countRule_exactly hl hw.sound he

/-- Values that share a payload own what is in it once. -/
theorem shared_list_counts_once :
    let s := Session.runValue [.common (.allocate "a" (.int 5)),
      .common (.define "x" (.list [.handle "a"])), .common (.allocate "b" (.var "x"))]
      (.empty (.ofMemory 100))
    s.ownersOf 0 = 2 ∧ s.sharersOf 0 = 2 ∧ s.heap.count 0 = 2 ∧
      ∀ block, s.heap.block? 0 = some block → block.count = s.ownersOf 0 := by
  intro s
  have hs : Reached Session.stepValue (fun c _ => c.Steady) s :=
    (Reached.start _).runBy (by simp [ValueCommand.Steady, Command.Steady])
  exact ⟨by decide +kernel, by decide +kernel, by decide +kernel, hs.counts_exact.1 0⟩

end CountedCells

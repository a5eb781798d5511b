import CountedCells.Proofs.Counts
import CountedCells.Proofs.Frozen

/-!
# Restoring: a block is damaged and put right

Setting the count of a block to zero by hand damages it: it is frozen from then on. A run that sets
no other count and rebuilds no pointer from the address of the block leaves the block as it is and
all others exact (`Session.Damaged.step`). Seen from outside the session is a plain store all the
while, but for commands that would need another reference to the block: these are refused, and
change nothing (`Plain.StepBut`).

The damage is put right by setting the count to the number of the owners that are left. Then all
counts are exact again, and what a steady run keeps up is kept up from there (`Session.Recovered`).
-/

namespace CountedCells

open Attempt

/-! ## Runs that leave a block alone -/

/-- The command rebuilds a pointer from the address of the block. -/
def ValueCommand.RebuildsFrom (b : BlockId) (c : ValueCommand) (s : Session Value) : Prop :=
  match c with
  | .common (.rebuild _ o n) => o.target? s.toRegisters = some (b, n)
  | _ => False

/-- The command sets no count by hand, and rebuilds no pointer from the address of the block. -/
structure ValueCommand.Avoids (b : BlockId) (c : ValueCommand) (s : Session Value) : Prop where
  /-- no count is set -/
  steady : c.Steady
  /-- the address is not used -/
  rebuilds : ¬ c.RebuildsFrom b s

/-- So do all commands of a run, each in the session that it finds. -/
def Session.Avoids (b : BlockId) : List ValueCommand → Session Value → Prop
  | [], _ => True
  | c :: cs, s => c.Avoids b s ∧ (s.stepValue c).2.Avoids b cs

namespace Session

variable {s : Session Value} {w : Written Value} {b n : Nat}

/-! ## Counts of a session -/

/-- Counts and owners agree, of blocks as of payloads. -/
structure Balanced (s : Session Value) : Prop where
  /-- the count of a block is the number of its owners -/
  counts : ∀ b block, s.heap.block? b = some block → block.count = s.ownersOf b
  /-- a block is there as long as it has owners, and no longer -/
  lasts : ∀ b, s.heap.block? b = none ↔ s.ownersOf b = 0
  /-- the count of a payload is the number of values that share it -/
  shares : ∀ (p : PayloadId) (payload : Payload Value), s.heap.payloads[p]? = some payload →
    payload.shares = s.sharersOf p

theorem Balanced.exact (hs : s.Balanced) (hw : s.InOrder w) : (s.ledger w).Exact := by
  intro b c n hshape
  obtain ⟨block, hb, rfl, -⟩ := Heap.exists_block_of_shape? hshape
  have hcount : block.count = s.ownersOf b := hs.counts b block hb
  rw [ownersOf_ledger hw.sound]
  refine ⟨hcount, Nat.pos_of_ne_zero fun hzero => ?_⟩
  have hnone : (s.ledger w).heap.block? b = none := (hs.lasts b).mpr (hcount ▸ hzero)
  rw [hb] at hnone
  cases hnone

theorem InOrder.balanced (hw : s.InOrder w) (he : (s.ledger w).Exact) : s.Balanced := by
  have hbalanced : (s.ledger w).Balanced := Ledger.Exact.balanced he hw.sound
  refine ⟨fun b block hb => ?_, fun b => ?_, fun p payload hp => ?_⟩
  · rw [← ownersOf_ledger hw.sound]
    exact hbalanced.counts b block hb
  · rw [← ownersOf_ledger hw.sound]
    exact hbalanced.lasts b
  · rw [← sharersOf_ledger hw.sound]
    exact hbalanced.shares p payload hp

/-! ## Damaged sessions -/

/-- One block has no count, and nothing else is wrong. -/
structure Damaged (s : Session Value) (b : BlockId) (n : Nat) (w : Written Value) : Prop where
  /-- the session is in order -/
  inOrder : s.InOrder w
  /-- the block has no count, and the other counts are exact -/
  exactBut : (s.ledger w).ExactBut b n
  /-- the block has no more owners than can be counted -/
  room : (s.ledger w).ownersOf b < Config.countRange
  /-- the trace is an account of the blocks -/
  audited : s.heap.Audited

namespace Damaged

/-- Wherever moves lead to, the block is frozen. -/
theorem freezes (hs : s.Damaged b n w) {l : Ledger Value} (hl : Moves (s.ledger w) l) :
    l.Freezes b n :=
  (Moves.exactBut hl hs.inOrder.sound hs.exactBut).freezes (Moves.sound hl hs.inOrder.sound)
    (Moves.keeps Heap.kept_recorded hl hs.inOrder.sound hs.inOrder.recorded)
    (lasting_audited.moves hl hs.inOrder.sound hs.audited)

theorem of_moves (hs : s.Damaged b n w) {s' : Session Value} {w' : Written Value}
    (hs' : s'.InOrder w') (hmoves : Moves (s.ledger w) (s'.ledger w')) : s'.Damaged b n w' where
  inOrder := hs'
  exactBut := Moves.exactBut hmoves hs.inOrder.sound hs.exactBut
  room := (Moves.ownersOf_le hmoves hs.inOrder.sound hs.exactBut).trans_lt hs.room
  audited := lasting_audited.moves hmoves hs.inOrder.sound hs.audited

/-- What is registered for another block finds a count there. -/
theorem count_pos (hs : s.Damaged b n w) {c m : Nat} (hc : c ≠ b)
    (hr : .block c m ∈ Owner.refs s.owners) : 0 < s.heap.count c := by
  obtain ⟨k, hk⟩ := hs.inOrder.sound.anchored c m (Ledger.mem_refs_of_owned hr)
  obtain ⟨hcount, hpos⟩ := hs.exactBut.others c k m hc hk
  obtain ⟨block, hb, rfl, -⟩ := Heap.exists_block_of_shape? hk
  exact Nat.lt_of_lt_of_eq hpos (Heap.count_eq hb).symm

/-- Registered references tell the number of cells. -/
theorem size_eq (hs : s.Damaged b n w) {m : Nat} (hr : .block b m ∈ Owner.refs s.owners) :
    m = n := by
  obtain ⟨k, hk⟩ := hs.inOrder.sound.anchored b m (Ledger.mem_refs_of_owned hr)
  rw [hs.exactBut.expired] at hk
  cases hk
  rfl

/-- A command that does not use the address of the block rebuilds pointers only where there is a
count. -/
theorem sensible (hs : s.Damaged b n w) {c : ValueCommand} (hc : ¬ c.RebuildsFrom b s) :
    c.Sensible s := by
  cases c with
  | common c =>
    cases c with
    | rebuild h o m =>
      intro c htarget
      have hne : c ≠ b := by
        rintro rfl
        exact hc htarget
      exact hs.count_pos hne
        (Origin.mem_refs_of_target? (le_refl s.owners) hs.inOrder.proper htarget)
    | _ => trivial
  | _ => trivial

end Damaged

/-! ## What commands find -/

/-- From one session to the other, as many pointers to the block are reported as owners go. -/
def Reports (s t : Session Value) (b : BlockId) : Prop :=
  t.heap.expiries b + t.ownersOf b = s.heap.expiries b + s.ownersOf b

/-- One block is frozen, and all others are counted. Commands that ask for another reference to the
block are refused, and those that give one back leave it as it is. -/
structure Freezes (s : Session Value) (b : BlockId) (n : Nat) : Prop where
  /-- the block is there, with a count of zero and all its cells -/
  there : ∃ block, s.heap.block? b = some block ∧ block.count = 0 ∧ block.size = n
  /-- the count of another block is the number of its owners -/
  counts : ∀ c block, c ≠ b → s.heap.block? c = some block → block.count = s.ownersOf c
  /-- another block is there as long as it has owners, and no longer -/
  lasts : ∀ c, c ≠ b → (s.heap.block? c = none ↔ s.ownersOf c = 0)
  /-- a second pointer is refused -/
  bind : ∀ h name m, s.handles.lookup name = some (.cells b m) →
    s.stepValue (.common (.bind h name)) = (.error (.fault (.error (.expired (.block b)))), s)
  /-- a copy of a pointer is abandoned -/
  copy : ∀ h name m, s.handles.lookup name = some (.cells b m) →
    s.stepValue (.common (.copy h name)) = (.error (.fault (.abandoned b)), s)
  /-- a raw block cannot be had -/
  rawOf : ∀ h name m, s.handles.lookup h = some (.cells b m) →
    s.stepValue (.common (.rawOf h name)) = (.error (.fault (.error (.expired (.block b)))), s)
  /-- nor one more reference of a raw block -/
  rawRetain : ∀ name u, s.raws.lookup name = some u → u.block = b →
    s.stepValue (.common (.rawRetain name)) = (.error (.fault (.error (.expired (.block b)))), s)
  /-- a raw block that gives back a reference learns that it is expired -/
  rawRelease : ∀ name u, s.raws.lookup name = some u → u.block = b →
    s.stepValue (.common (.rawRelease name)) = (.ok (.common (.released .expired)), s)
  /-- a handle that is dropped is reported -/
  drop : ∀ name m, s.handles.lookup name = some (.cells b m) →
    s.stepValue (.common (.drop name)) = (.ok (.common .done),
      ⟨{ s.toRegisters with handles := Entries.remove name s.handles },
        s.heap.log (.droppedExpired b)⟩)
  /-- so is a variable -/
  forget : ∀ x v m, s.values.lookup x = some v → Host.ref v = some (.block b m) →
    s.stepValue (.common (.forget x)) = (.ok (.common .done),
      ⟨{ s.toRegisters with values := Entries.remove x s.values },
        s.heap.log (.droppedExpired b)⟩)
  /-- whatever owner is given up, the pointers to the block that go with it are reported -/
  reported : ∀ c : ValueCommand, c.GivesUp → s.Reports (s.stepValue c).2 b

theorem stepValue_of_step {c : Command Term} {r : Except Failure (Answer Value)}
    {s' : Session Value} (hstep : s.step c = (r, s')) :
    s.stepValue (.common c) = (r.map .common, s') := by
  rw [stepValue_common, hstep]

/-- Tasks are carried out after owners have been taken out of the registers. -/
theorem Damaged.reports_settle (hs : s.Damaged b n w) {ts : List (Task Value)}
    {r : Registers Value} (hmoves : Moves (s.ledger w) ⟨s.heap, Owner.ofTasks ts + r.owners, w⟩)
    (hrefs : Ledger.refs ⟨s.heap, Owner.ofTasks ts + r.owners, w⟩ = (s.ledger w).refs) :
    s.Reports ⟨r, s.heap.settle ts⟩ b := by
  have hsettle : Moves (s.ledger w) ⟨s.heap.settle ts, r.owners, w⟩ :=
    hmoves.trans (Yields.settle ts).moves
  have hreports := (hs.freezes hmoves).reported ts r.owners rfl
  have hsame : Ledger.ownersOf ⟨s.heap, Owner.ofTasks ts + r.owners, w⟩ b =
      (s.ledger w).ownersOf b := by rw [Ledger.ownersOf, hrefs, Ledger.ownersOf]
  have hafter := ownersOf_ledger (s := ⟨r, s.heap.settle ts⟩)
    (Moves.sound hsettle hs.inOrder.sound) b
  rw [Reports, ← hafter, ← ownersOf_ledger hs.inOrder.sound, ← hsame]
  exact hreports

/-- A variable is removed, and the tasks for its value are carried out. -/
theorem Damaged.reports_takeVariable (hs : s.Damaged b n w) (tasks : Value → List (Task Value))
    (htasks : ∀ v os, Moves ⟨s.heap, {.value .caller v} + os, w⟩
        ⟨s.heap, Owner.ofTasks (tasks v) + os, w⟩ ∧
      Ledger.refs ⟨s.heap, Owner.ofTasks (tasks v) + os, w⟩ =
        Ledger.refs ⟨s.heap, {.value .caller v} + os, w⟩) (name : String) :
    s.Reports ((do
      let v ← Act.takeVariable name
      Act.updateHeap (·.settle (tasks v))
      pure Answer.done : Act Value (Answer Value)) s).2 b := by
  have htake := takeVariable_apply s name
  rcases hv : s.values.lookup name with - | v <;> rw [hv] at htake
  · rw [bind_of_error htake]
    exact rfl
  · rw [bind_of_ok htake]
    let rest : Registers Value := { s.toRegisters with values := Entries.remove name s.values }
    have howners : s.owners = {.value .caller v} + rest.owners := by
      rw [← Registers.owners_removeVariable s.toRegisters name, hv]
      rfl
    obtain ⟨hmoves, hrefs⟩ := htasks v rest.owners
    rw [← howners] at hmoves hrefs
    exact hs.reports_settle hmoves hrefs

/-- Whatever owner is given up, the pointers to the block that go with it are reported. -/
theorem Damaged.reports (hs : s.Damaged b n w) {c : ValueCommand} (hc : c.GivesUp) :
    s.Reports (s.stepValue c).2 b := by
  cases c with
  | common c =>
    rw [stepValue_common]
    cases c with
    | drop name =>
      rw [step_drop]
      rcases hp : s.handles.lookup name with - | p
      · exact rfl
      · let rest : Registers Value :=
          { s.toRegisters with handles := Entries.remove name s.handles }
        have howners : s.owners = Owner.ofTasks (p.ref.toList.map .drop) + rest.owners := by
          rw [Owner.ofTasks_drop_ref, ← Registers.owners_removeHandle s.toRegisters name, hp]
          rfl
        exact hs.reports_settle (r := rest) (by rw [← howners]; exact .refl)
          (by rw [← howners]; rfl)
    | disown name =>
      exact hs.reports_takeVariable (fun v => [.disown .caller v]) (fun _ _ => ⟨.refl, rfl⟩) name
    | forget name =>
      refine hs.reports_takeVariable Task.dropsOf (fun v os => ?_) name
      rw [Owner.ofTasks_dropsOf, Ledger.refs_owners_add, Ledger.refs_owners_add, Owner.refs_value,
        Owner.refs_ofRef]
      exact ⟨.single .part, rfl⟩
    | rawRelease name =>
      rcases hu : s.raws.lookup name with - | u
      · rw [step_rawRelease, hu]
        exact rfl
      · rcases Nat.eq_zero_or_pos (s.heap.count u.block) with hzero | hpos
        · rw [hs.inOrder.step_release_expired hu hzero]
          exact rfl
        · rw [step_rawRelease, hu, Option.elim_some,
            if_neg (Heap.release_ne_expired hpos u.size), Heap.release_eq hpos]
          have howners := Registers.owners_released hu (hs.inOrder.proper.owned_pos hu)
          have hsame : s.owners = Owner.ofTasks [.drop (.block u.block u.size)] +
            (s.toRegisters.released name u).owners := howners
          exact hs.reports_settle (by rw [← hsame]; exact .refl) (by rw [← hsame]; rfl)
    | _ => exact hc.elim
  | _ => exact hc.elim

end Session

/-! ## A plain store next to a damaged session -/

/-- A command on a plain store next to a session in which a block has no count, with its reply and
the store afterwards. -/
inductive Plain.StepBut (b : BlockId) (c : ValueCommand) (p : Plain) :
    Except Failure Reply → Plain → Prop where
  /-- the block plays no part -/
  | step {r : Except Failure Reply} {p' : Plain} (hstep : Step c p r p') : StepBut b c p r p'
  /-- another reference to the block is refused; all entries stay, and so do the registers, except
  that a null pointer may have got its cell before the write through it was refused -/
  | refused {f : Failure} {r : Registers Datum} {cells : Cells}
      (hf : f = .fault (.abandoned b) ∨ f = .fault (.error (.expired (.block b))))
      (hregisters : p.toRegisters.Upgrades p.cells.length r) (hcells : p.cells <+: cells) :
      StepBut b c p (.error f) ⟨r, cells⟩
  /-- a raw block that gives back a reference to the block keeps it -/
  | kept {name : String} {u : RawBlock} (hc : c = .common (.rawRelease name))
      (hu : p.raws.lookup name = some u) (hb : u.block = b) : StepBut b c p (.ok .other) p

/-- Entries are only changed by commands that write, and only if these succeed. -/
theorem Plain.StepBut.cells_mono {b : BlockId} {c : ValueCommand} {p p' : Plain}
    {r : Except Failure Reply} (hstep : StepBut b c p r p')
    (hc : ¬ c.Writes ∨ ∃ f, r = .error f) : p.cells <+: p'.cells := by
  cases hstep with
  | step hstep => exact hstep.cells_mono hc
  | refused _ _ hcells => exact hcells
  | kept => exact List.prefix_rfl

/-- The session shows the plain store, but reading never gives a pointer to the block. -/
structure Session.ShowsBut (s : Session Value) (b : BlockId) (p : Plain) : Prop where
  /-- the registers are the same, up to what is shared -/
  registers : p.toRegisters = s.faces
  /-- the blocks that are there hold the entries of their identities -/
  entries : ∀ c block, s.heap.block? c = some block → p.cells.entries c = block.data
  /-- a pointer that the session has anywhere denotes a block that is there -/
  denotes : ∀ c n, s.Names (.cells c n) → ∃ block, s.heap.block? c = some block ∧ block.size = n
  /-- reading a single cell finds its entry -/
  get : ∀ e ∈ s.handles, ∀ c, e.2 = .cells c 1 →
    s.heap.Reads b [p.cells.entry c 0] (fun v => [v.datum]) (e.2.get s.heap)
  /-- reading a cell by number finds its entry -/
  getAt : ∀ e ∈ s.handles, ∀ c n i, e.2 = .cells c n → i < n →
    s.heap.Reads b [p.cells.entry c i] (fun v => [v.datum]) (e.2.getAt i s.heap)
  /-- reading all cells finds all entries -/
  toList : ∀ e ∈ s.handles, ∀ c n, e.2 = .cells c n →
    s.heap.Reads b (p.cells.entries c) (List.map Value.datum) (e.2.toList s.heap)
  /-- pointers are equal if both are null or both denote the same identity -/
  same : ∀ q r, s.Names q → s.Names r →
    (q.same r = true ↔ q = .null ∧ r = .null ∨ ∃ b n, q = .cells b n ∧ r = .cells b n)

/-- The plain store, and what becomes of it, accounts for what the commands do to a session in which
a block has no count. -/
inductive Plain.ExplainsBut (b : BlockId) :
    Plain → Session Value → List ValueCommand → Plain → Prop where
  /-- no commands are left -/
  | done {p : Plain} {s : Session Value} (hshows : s.ShowsBut b p) : ExplainsBut b p s [] p
  /-- the next command -/
  | step {p p' q : Plain} {s : Session Value} {c : ValueCommand} {cs : List ValueCommand}
      (hshows : s.ShowsBut b p) (hstep : StepBut b c p ((s.stepValue c).1.map ValueAnswer.reply) p')
      (hkept : (¬ c.Writes ∨ ∃ f, (s.stepValue c).1 = .error f) → p.cells <+: p'.cells)
      (hcrowded : ∀ a, (s.stepValue c).1 = .error (.fault (.overflow a)) →
        Config.countRange ≤ s.heap.count a + c.takes s.toRegisters)
      (hrest : ExplainsBut b p' (s.stepValue c).2 cs q) : ExplainsBut b p s (c :: cs) q

theorem ValueCommand.effective_or (c : ValueCommand) (s : Session Value) :
    c.Effective s ∨ ∃ name u, c = .common (.rawRelease name) ∧ s.raws.lookup name = some u ∧
      s.heap.count u.block = 0 := by
  cases c with
  | common c =>
    refine (c.effective_or s).imp_right ?_
    rintro ⟨name, u, rfl, hu⟩
    exact ⟨name, u, rfl, hu⟩
  | _ => exact .inl trivial

namespace Session.Damaged

variable {s : Session Value} {w : Written Value} {b n : Nat}

/-- A damaged session shows what is recorded. -/
theorem showsBut (hs : s.Damaged b n w) : s.ShowsBut b (.of s w) := by
  have hfreezes := hs.freezes .refl
  have hkeeps {e : String × Pointer} (hmem : e ∈ s.handles) : Owner.Keeps s.owners e.2 :=
    Registers.keeps_of_mem (le_refl _) hmem
  refine ⟨rfl, fun c block hb => hs.inOrder.recorded.displays c block hb,
    fun c n => hs.inOrder.exists_block, fun e hmem c hp => ?_, fun e hmem c m i hp hi => ?_,
    fun e hmem c m hp => ?_, fun q r => hs.inOrder.same_iff⟩
  · have hc := hkeeps hmem c 1 hp
    rw [hp]
    exact hfreezes.get c hc
  · have hc := hkeeps hmem c m hp
    rw [hp]
    exact hfreezes.getAt c m i hc hi
  · have hc := hkeeps hmem c m hp
    rw [hp]
    exact hfreezes.toList c m hc

/-- A command that spares the block leaves it as it is. -/
theorem step (hs : s.Damaged b n w) {c : ValueCommand} (hc : c.Avoids b s) :
    ∃ w', (s.stepValue c).2.Damaged b n w' ∧ Moves (s.ledger w) ((s.stepValue c).2.ledger w') ∧
      Plain.StepBut b c (.of s w) ((s.stepValue c).1.map ValueAnswer.reply)
        (.of (s.stepValue c).2 w') := by
  obtain heffective | ⟨name, u, rfl, hu, hcount⟩ := c.effective_or s
  swap
  · -- the raw block is one of the block without a count, since it would find a count otherwise
    have hb : u.block = b := by
      by_contra hne
      have hpos := hs.count_pos hne
        (Registers.mem_refs_raw (le_refl s.owners) hs.inOrder.proper hu)
      omega
    rw [stepValue_of_step (hs.inOrder.step_release_expired hu hcount)]
    exact ⟨w, hs, .refl, .kept rfl hu hb⟩
  have hends := hs.inOrder.ends_step hc.steady (hs.sensible hc.rebuilds) heffective
  rcases hrun : s.stepValue c with ⟨outcome, s'⟩
  rw [hrun] at hends
  cases outcome with
  | ok a =>
    obtain ⟨w', hs', hmoves, hplan⟩ := hends
    exact ⟨w', hs.of_moves hs' hmoves, hmoves, .step (.done hplan)⟩
  | error f =>
    obtain ⟨w', hs', hmoves, hw, hfails⟩ := hends
    refine ⟨w', hs.of_moves hs' hmoves, hmoves, ?_⟩
    show Plain.StepBut b c (.of s w) (.error f) ⟨s'.faces, Written.cells w'⟩
    obtain ⟨hregisters, hcause⟩ | ⟨hblames, hspares⟩ := hfails
    · rw [hregisters]
      exact .step (.failed hcause (Written.cells_mono hw))
    · have hspares' := hspares.faces
      rw [← Written.length_cells w] at hspares'
      obtain ⟨c, m, hshape, hf⟩ | hf := hblames
      · obtain rfl := hs.exactBut.eq_of_expired hshape
        exact .refused hf hspares' (Written.cells_mono hw)
      · exact .step (.crowded hf hspares' (Written.cells_mono hw))

/-- So does a run. -/
theorem run {cs : List ValueCommand} (hs : s.Damaged b n w) (hcs : s.Avoids b cs) :
    ∃ w', (s.runValue cs).Damaged b n w' ∧ Moves (s.ledger w) ((s.runValue cs).ledger w') ∧
      Plain.ExplainsBut b (.of s w) s cs (.of (s.runValue cs) w') := by
  induction cs generalizing s w with
  | nil => exact ⟨w, hs, .refl, .done hs.showsBut⟩
  | cons c cs ih =>
    obtain ⟨hc, hcs⟩ := hcs
    obtain ⟨w₁, hs₁, hmoves, hstep⟩ := hs.step hc
    obtain ⟨w', hs', hmoves', hrest⟩ := ih hs₁ hcs
    have hclimbs := climbs_stepValue hc.steady s
    refine ⟨w', hs', hmoves.trans hmoves',
      .step hs.showsBut hstep (fun hc => hstep.cells_mono (hc.imp_right ?_))
        (fun a hf => hclimbs.overflow _ a hf rfl) hrest⟩
    rintro ⟨f, hf⟩
    exact ⟨f, by rw [hf]; rfl⟩

/-- Nothing is reported of the block but that an owner of it went. -/
theorem reports_le (hs : s.Damaged b n w) {t : Session Value} {w' : Written Value}
    (hmoves : Moves (s.ledger w) (t.ledger w')) :
    t.heap.expiries b + t.ownersOf b ≤ s.heap.expiries b + s.ownersOf b := by
  rw [← ownersOf_ledger (Moves.sound hmoves hs.inOrder.sound), ← ownersOf_ledger hs.inOrder.sound]
  exact Moves.reports_le hmoves hs.inOrder.sound hs.exactBut

end Session.Damaged

/-! ## Putting it right -/

namespace Session

variable {s : Session Value} {w : Written Value}

/-- A steady run keeps counts exact, wherever it starts from. -/
theorem InOrder.runValue {cs : List ValueCommand} (hs : s.InOrder w) (he : (s.ledger w).Exact)
    (ha : s.heap.Audited) (hcs : ∀ c ∈ cs, c.Steady) :
    ∃ w', (s.runValue cs).InOrder w' ∧ ((s.runValue cs).ledger w').Exact ∧
      (s.runValue cs).heap.Audited := by
  induction cs generalizing s w with
  | nil => exact ⟨w, hs, he, ha⟩
  | cons c cs ih =>
    obtain ⟨w₁, hs₁, he₁, hmoves⟩ := hs.step_exact he (hcs c List.mem_cons_self)
    exact ih hs₁ he₁ (lasting_audited.moves hmoves hs.sound ha) fun c' hc' =>
      hcs c' (List.mem_cons_of_mem c hc')

/-- A session with exact counts is damaged by setting one of them to zero. -/
theorem InOrder.damaged (hs : s.InOrder w) (he : (s.ledger w).Exact) (ha : s.heap.Audited)
    {name : String} {u : RawBlock} (hu : s.raws.lookup name = some u) :
    (s.mapHeap (·.setCount u.block 0)).Damaged u.block u.size w := by
  obtain ⟨block, hb, hsize⟩ := (Stage.start hs.sound hs.recorded).exists_block
    (Ledger.mem_refs_of_owned (Registers.mem_refs_raw (le_refl s.owners) hs.proper hu))
  refine ⟨hs.setCount ⟨.inl rfl, by decide⟩, ?_, ?_, lasting_audited.setCount u.block 0 ha⟩
  · rw [← hsize]
    exact Ledger.Exact.expire he hb
  · have howners : (s.ledger w).ownersOf u.block = block.count :=
      (he _ _ _ (Heap.shape?_eq hb)).1.symm
    have hsame : ((s.mapHeap (·.setCount u.block 0)).ledger w).ownersOf u.block =
        (s.ledger w).ownersOf u.block := by
      rw [Ledger.ownersOf, Ledger.ownersOf]
      exact congrArg (Multiset.countP _) (Ledger.refs_setCount _ _)
    rw [hsame, howners]
    exact (hs.sound.counted _ _ _ (Heap.shape?_eq hb)).2

end Session

end CountedCells

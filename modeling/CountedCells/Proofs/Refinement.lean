import CountedCells.Proofs.Growth

/-!
# Refinement: a session is a plain store, seen from outside

What a run of a session answers is what a run of a plain store answers (`Plain.Explains`), and at
each point the session **shows** the plain store: the registers are the same, reading through a
handle finds the entries, and handles are equal where the identities are. A block that anything
denotes is there, so it does not matter that cascades destroy blocks: they leave the data in the
others alone.

There are two things that a plain store cannot foresee. A heap may be short of room, so a command
that makes cells may be refused where its plan goes on. And a block may have as many owners as can
be counted, so a command that needs one more is abandoned; how many owners there are then is told by
what the command takes (`Session.climbs_stepValue`). Like every failure this changes no entry;
identities may have been used up in the attempt, but nothing denotes them, unless a write through a
null pointer had made its cell already.
-/

namespace CountedCells

open Attempt

/-! ## What plans leave alone -/

namespace Plan

variable {α β : Type}

/-- The plan may make cells, but it changes no entry. -/
def Grows (plan : Plan α) : Prop :=
  ∀ p a p', plan p = .ok (a, p') → p.cells <+: p'.cells

theorem grows_pure (a : α) : Grows (pure a : Plan α) := by
  rintro p a' p' h
  cases h
  exact List.prefix_rfl

theorem grows_throw (f : Failure) : Grows (throw f : Plan α) := nofun

theorem grows_find (f : Plain → Except Failure α) : Grows (find f) := by
  intro p a p' h
  rcases hf : f p with e | a'
  · rw [find_of_error hf] at h
    cases h
  · rw [find_of_ok hf] at h
    cases h
    exact List.prefix_rfl

theorem grows_registers (f : Plain → Registers Datum) : Grows (update fun p => ⟨f p, p.cells⟩) := by
  intro p a p' h
  cases h
  exact List.prefix_rfl

theorem grows_make (ds : List Datum) : Grows (make ds) := by
  intro p b p' h
  simp only [make] at h
  split at h
  · cases h
  · cases h
    exact List.prefix_append _ _

theorem Grows.bind {plan : Plan α} {F : α → Plan β} (hplan : plan.Grows) (hF : ∀ a, (F a).Grows) :
    (plan >>= F).Grows := by
  intro p b p' h
  rcases hp : plan p with e | ⟨a, p₁⟩
  · rw [bind_of_error hp] at h
    cases h
  · rw [bind_of_ok hp] at h
    exact (hplan p a p₁ hp).trans (hF a p₁ b p' h)

theorem grows_made (name : String) (q : Pointer) : (made name q).Grows :=
  (grows_registers _).bind fun _ => grows_pure _

theorem grows_fresh (ds : List Datum) : (fresh ds).Grows :=
  (grows_make ds).bind fun _ => grows_pure _

theorem grows_answerValue (keep : Option String) (d : Datum) : (answerValue keep d).Grows := by
  cases keep with
  | none => exact (grows_pure ()).bind fun _ => grows_pure _
  | some name => exact (grows_registers _).bind fun _ => grows_pure _

theorem grows_takeVariable (name : String) : (takeVariable name).Grows :=
  (grows_find _).bind fun _ => (grows_registers _).bind fun _ => grows_pure _

theorem grows_rawWithCell (name : String) (i : Nat) : (rawWithCell name i).Grows := by
  refine (grows_find _).bind fun u => ?_
  split
  · exact grows_pure u
  · exact grows_throw _

theorem grows_get (q : Pointer) : (get q).Grows := (grows_find _).bind fun _ => grows_find _

theorem grows_rebuilt (o : Origin) (n : Nat) : (rebuilt o n).Grows := by
  intro p q p' h
  rw [Origin.rebuilt_apply] at h
  rcases ha : o.address? n p.toRegisters with e | a <;> rw [ha] at h
  · cases h
  · cases h
    exact List.prefix_rfl

theorem grows_collect (names : List String) (got : List Pointer) : (collect got names).Grows := by
  induction names generalizing got with
  | nil => exact grows_pure _
  | cons name names ih =>
    refine (grows_find _).bind fun q => ?_
    split
    · exact (ih got).bind fun _ => grows_pure _
    · exact (ih (got ++ [q])).bind fun _ => grows_pure _

theorem grows_chainOn (n : Nat) (q : Pointer) : (chainOn n q).Grows := by
  induction n generalizing q with
  | zero => exact grows_pure q
  | succ n ih => exact (grows_fresh _).bind ih

end Plan

/-- The command writes to cells that are there already, if it succeeds. -/
def Command.Writes {E : Type} : Command E → Prop
  | .set _ _ | .setAt _ _ _ | .swap _ _ | .rawStore _ _ _ | .rawSwap _ _ _ _ => True
  | _ => False

/-- The command writes to cells that are there already, if it succeeds. -/
def ValueCommand.Writes : ValueCommand → Prop
  | .common c => c.Writes
  | _ => False

namespace Plan

/-- Only commands that write change entries. -/
theorem grows_ofCommand {E : Type} [Meaning E] {c : Command E} (hc : ¬ c.Writes) :
    (ofCommand c).Grows := by
  cases c with
  | null h => exact grows_made h .null
  | allocate h e => exact (grows_find _).bind fun _ => (grows_fresh _).bind (grows_made h)
  | allocateCount h n => exact (grows_fresh _).bind (grows_made h)
  | allocateValues h es => exact (grows_find _).bind fun _ => (grows_fresh _).bind (grows_made h)
  | bind h source => exact (grows_find _).bind (grows_made h)
  | copy h source => exact (grows_find _).bind (grows_made h)
  | rebuild h o n => exact (grows_rebuilt o n).bind (grows_made h)
  | drop h =>
    exact (grows_find _).bind fun _ => (grows_registers _).bind fun _ => grows_pure _
  | get h keep => exact (grows_find _).bind fun q => (grows_get q).bind (grows_answerValue keep)
  | getAt h i keep =>
    exact (grows_find _).bind fun q =>
      ((grows_find _).bind fun _ => grows_find _).bind (grows_answerValue keep)
  | toList h =>
    exact (grows_find _).bind fun q =>
      ((grows_find _).bind fun _ => grows_find _).bind fun _ => grows_pure _
  | inspect h => exact (grows_find _).bind fun _ => grows_pure _
  | compare a b => exact (grows_find _).bind fun _ => (grows_find _).bind fun _ => grows_pure _
  | handleSet hs => exact (grows_collect hs []).bind fun _ => grows_pure _
  | define x e =>
    exact (grows_find _).bind fun _ => (grows_registers _).bind fun _ => grows_pure _
  | acquire x keep => exact (grows_find _).bind (grows_answerValue keep)
  | disown x => exact (grows_takeVariable x).bind fun _ => grows_pure _
  | forget x => exact (grows_takeVariable x).bind fun _ => grows_pure _
  | evaluate es => exact (grows_find _).bind fun _ => grows_pure _
  | rawAllocate u n =>
    exact (grows_make _).bind fun _ => (grows_registers _).bind fun _ => grows_pure _
  | rawOf h u =>
    refine (grows_find _).bind fun q => ?_
    cases q with
    | null => exact grows_throw _
    | cells b n => exact (grows_registers _).bind fun _ => grows_pure _
  | rawRetain u =>
    exact (grows_find _).bind fun _ => (grows_registers _).bind fun _ => grows_pure _
  | rawRelease u =>
    exact (grows_find _).bind fun _ => (grows_registers _).bind fun _ => grows_pure _
  | rawRead u i keep =>
    exact (grows_rawWithCell u i).bind fun _ => (grows_find _).bind (grows_answerValue keep)
  | rawCount u i => exact (grows_rawWithCell u i).bind fun _ => grows_pure _
  | rawExpire u => exact (grows_find _).bind fun _ => grows_pure _
  | rawRestore u n => exact (grows_find _).bind fun _ => grows_pure _
  | configure config => exact grows_pure _
  | stats => exact grows_pure _
  | config => exact grows_pure _
  | stability => exact grows_pure _
  | set | setAt | swap | rawStore | rawSwap => exact absurd trivial hc

theorem grows_ofValueCommand {c : ValueCommand} (hc : ¬ c.Writes) : (ofValueCommand c).Grows := by
  cases c with
  | common c => exact grows_ofCommand hc
  | equals h t =>
    refine (grows_find _).bind fun q => (grows_find _).bind fun d => ?_
    cases d with
    | pointer r => exact grows_pure _
    | _ => exact grows_throw _
  | load h source =>
    refine (grows_find _).bind fun q => (grows_get q).bind fun d => ?_
    cases d with
    | pointer r => exact grows_made h r
    | _ => exact grows_throw _
  | chain h n t =>
    exact (grows_find _).bind fun d => (grows_fresh _).bind fun q =>
      (grows_chainOn _ q).bind (grows_made h)
  | walk h limit =>
    exact (grows_find _).bind fun q => (grows_get q).bind fun d =>
      (grows_find _).bind fun _ => grows_pure _
  | sharers x => exact (grows_find _).bind fun _ => grows_pure _
  | samePayload x y => exact (grows_find _).bind fun _ => (grows_find _).bind fun _ => grows_pure _

end Plan

/-! ## Steps of a plain store -/

/-- A command on a plain store, with its reply and the store afterwards. -/
inductive Plain.Step (c : ValueCommand) (p : Plain) : Except Failure Reply → Plain → Prop where
  /-- the plan is carried out -/
  | done {r : Reply} {p' : Plain} (hplan : Plan.ofValueCommand c p = .ok (r, p')) :
      Step c p (.ok r) p'
  /-- the plan fails, or there is no room; all entries stay, and so do all registers -/
  | failed {f : Failure} {cells : Cells}
      (hcause : Plan.ofValueCommand c p = .error f ∨ c.MakesCells ∧ f.IsRefusal)
      (hcells : p.cells <+: cells) : Step c p (.error f) { p with cells }
  /-- a block has so many owners that there cannot be another one; all entries stay, and so do the
  registers, except that a null pointer may have got its cell before the write through it was
  abandoned -/
  | crowded {f : Failure} {r : Registers Datum} {cells : Cells} (hf : f.IsOverflow)
      (hregisters : p.toRegisters.Upgrades p.cells.length r) (hcells : p.cells <+: cells) :
      Step c p (.error f) ⟨r, cells⟩

/-- Entries are only changed by commands that write, and only if these succeed. -/
theorem Plain.Step.cells_mono {c : ValueCommand} {p p' : Plain} {r : Except Failure Reply}
    (hstep : Step c p r p') (hc : ¬ c.Writes ∨ ∃ f, r = .error f) : p.cells <+: p'.cells := by
  cases hstep with
  | failed _ hcells => exact hcells
  | crowded _ _ hcells => exact hcells
  | done hplan =>
    rcases hc with hc | ⟨f, hf⟩
    · exact Plan.grows_ofValueCommand hc _ _ _ hplan
    · cases hf

/-! ## What a session shows -/

/-- A pointer that the session has under a name, or inside a value somewhere. -/
def Session.Names (s : Session Value) (q : Pointer) : Prop :=
  (∃ e ∈ s.handles, e.2 = q) ∨ ∃ v, s.Has v ∧ v.datum.Holds q

/-- The data in cells, where a cell that was never written shows the default value. -/
def Block.data (block : Block Value) : List Datum :=
  block.contents.map fun o => (o.getD default).datum

/-- The session shows the plain store. Reading finds what it should, unless a value in the cells
points to a block that has no room for another owner. -/
structure Session.Shows (s : Session Value) (p : Plain) : Prop where
  /-- the registers are the same, up to what is shared -/
  registers : p.toRegisters = s.faces
  /-- the blocks that are there hold the entries of their identities -/
  entries : ∀ b block, s.heap.block? b = some block → p.cells.entries b = block.data
  /-- a pointer that the session has anywhere denotes a block that is there -/
  denotes : ∀ b n, s.Names (.cells b n) → ∃ block, s.heap.block? b = some block ∧ block.size = n
  /-- reading a single cell finds its entry -/
  get : ∀ e ∈ s.handles, ∀ b, e.2 = .cells b 1 →
    Ends (e.2.get s.heap) (fun v _ => v.datum = p.cells.entry b 0) fun f _ => s.heap.Overflows 1 f
  /-- reading a cell by number finds its entry -/
  getAt : ∀ e ∈ s.handles, ∀ b n i, e.2 = .cells b n → i < n →
    Ends (e.2.getAt i s.heap) (fun v _ => v.datum = p.cells.entry b i)
      fun f _ => s.heap.Overflows 1 f
  /-- reading all cells finds all entries -/
  toList : ∀ e ∈ s.handles, ∀ b n, e.2 = .cells b n →
    Ends (e.2.toList s.heap) (fun vs _ => vs.map Value.datum = p.cells.entries b)
      fun f _ => s.heap.Overflows n f
  /-- pointers are equal if both are null or both denote the same identity -/
  same : ∀ q r, s.Names q → s.Names r →
    (q.same r = true ↔ q = .null ∧ r = .null ∨ ∃ b n, q = .cells b n ∧ r = .cells b n)

namespace Session

variable {s : Session Value} {w : Written Value}

theorem Names.mem_refs (hl : (s.ledger w).Sound) {b : BlockId} {n : Nat}
    (hq : s.Names (.cells b n)) : .block b n ∈ (s.ledger w).refs := by
  rcases hq with ⟨e, he, hp⟩ | ⟨v, hv, hholds⟩
  · exact Ledger.mem_refs_of_owned (Registers.keeps_of_mem (le_refl s.owners) he b n hp)
  · exact hl.mem_refs_of_holds hv.ledger hholds

namespace InOrder

/-- A pointer that the session has denotes a block that is there. -/
theorem exists_block (hs : s.InOrder w) {b : BlockId} {n : Nat} (hq : s.Names (.cells b n)) :
    ∃ block, s.heap.block? b = some block ∧ block.size = n :=
  (Stage.start hs.sound hs.recorded).exists_block (hq.mem_refs hs.sound)

/-- Pointers are equal if both are null or both denote the same identity. -/
theorem same_iff (hs : s.InOrder w) {q r : Pointer} (hq : s.Names q) (hr : s.Names r) :
    q.same r = true ↔ q = .null ∧ r = .null ∨ ∃ b n, q = .cells b n ∧ r = .cells b n := by
  rw [Pointer.same_iff]
  rcases q with - | ⟨b, n⟩ <;> rcases r with - | ⟨c, m⟩
  · simp
  · simp [Pointer.address]
  · simp [Pointer.address]
  · -- where the identity is the same, so is the number of cells
    simp only [Pointer.address, Address.block.injEq, reduceCtorEq, and_self, false_or]
    constructor
    · rintro rfl
      obtain ⟨block, hb, rfl⟩ := hs.exists_block hq
      obtain ⟨block', hb', rfl⟩ := hs.exists_block hr
      rw [hb] at hb'
      cases hb'
      exact ⟨b, _, rfl, rfl⟩
    · rintro ⟨b', n', hq', hr'⟩
      cases hq'
      cases hr'
      rfl

/-- Reading a cell of a registered block does not fail but for a count that cannot be raised. -/
theorem ends_read (hs : s.InOrder w) (he : (s.ledger w).Exact) {b n i : Nat}
    (hr : .block b n ∈ Owner.refs s.owners) (hi : i < n) :
    Ends (Heap.read b i s.heap) (fun v _ => v.datum = w.cells.entry b i)
      fun f _ => s.heap.Overflows 1 f := by
  have st : Stage (s.ledger w) s.heap s.owners w := Stage.start hs.sound hs.recorded
  obtain ⟨block, hb, rfl⟩ := st.exists_block (Ledger.mem_refs_of_owned hr)
  have hintact : s.heap.Intact := he.intact hs.sound
  have hview := (mirrors_read (r := s.faces) st hr hi).ends_view rfl
  have hcounts := (Heap.Calls.refl s.heap).ends_read hb hi
    fun v hv => hintact.counted_of_stored hb (Block.mem_stored_of_value? hv)
  refine (hview.and hcounts).mono (fun _ _ hv => hv.1) fun f _ hf => hf.2.mono fun c => ?_
  have hone := Option.length_toList_le (o := s.heap.value? b i)
  simp only [List.length_nil]
  omega

/-- Nor does reading all of its cells. -/
theorem ends_readOn (hs : s.InOrder w) (he : (s.ledger w).Exact) {b n : Nat}
    (hr : .block b n ∈ Owner.refs s.owners) :
    Ends (Pointer.readOn b n 0 [] s.heap) (fun vs _ => vs.map Value.datum = w.cells.entries b)
      fun f _ => s.heap.Overflows n f := by
  have st : Stage (s.ledger w) s.heap s.owners w := Stage.start hs.sound hs.recorded
  obtain ⟨block, hb, rfl⟩ := st.exists_block (Ledger.mem_refs_of_owned hr)
  have hintact : s.heap.Intact := he.intact hs.sound
  have hview := (mirrors_readOn (r := s.faces) block.size 0 [] (Nat.zero_add _) hr
    (st.reown (zero_add _).symm)).ends_view (b := w.cells.entries b) rfl
  have hcounts := Heap.Calls.ends_readOn hb
    (fun v hv => hintact.counted_of_stored hb hv) (Nat.zero_add _) [] (.refl s.heap)
  refine (hview.and hcounts).mono (fun _ _ hv => hv.1) fun f _ hf => hf.2.mono fun c => ?_
  have hstored : block.stored.length ≤ block.size := by
    rw [← block.values_size]
    exact block.length_values_le block.size
  rw [List.length_nil, Nat.zero_add]
  exact Nat.add_le_add_left hstored _

/-- With exact counts, a session in order shows what is recorded. -/
theorem shows (hs : s.InOrder w) (he : (s.ledger w).Exact) : s.Shows (.of s w) := by
  have hkeeps {e : String × Pointer} (hmem : e ∈ s.handles) : Owner.Keeps s.owners e.2 :=
    Registers.keeps_of_mem (le_refl _) hmem
  have hentries : ∀ b block, s.heap.block? b = some block → w.cells.entries b = block.data :=
    fun b block hb => Written.entries_cells (hs.recorded.contents b block hb)
  refine ⟨rfl, hentries, fun b n => hs.exists_block, fun e hmem b hp => ?_,
    fun e hmem b n i hp hi => ?_, fun e hmem b n hp => ?_, fun q r => hs.same_iff⟩
  · have hr := hkeeps hmem b 1 hp
    rw [hp, Pointer.get_eq]
    exact hs.ends_read he hr Nat.one_pos
  · have hr := hkeeps hmem b n hp
    rw [hp, Pointer.getAt_eq hi]
    exact hs.ends_read he hr hi
  · have hr := hkeeps hmem b n hp
    rw [hp, Pointer.toList_eq]
    exact hs.ends_readOn he hr

end InOrder

/-- A command does what its plan does to the plain store, and then the session shows that store. -/
theorem InOrder.step_refines (hs : s.InOrder w) (he : (s.ledger w).Exact) {c : ValueCommand}
    (hc : c.Steady) :
    ∃ w', (s.stepValue c).2.InOrder w' ∧ ((s.stepValue c).2.ledger w').Exact ∧
      Plain.Step c (.of s w) ((s.stepValue c).1.map ValueAnswer.reply)
        (.of (s.stepValue c).2 w') := by
  have hends := hs.ends_step hc (hs.sensible he c) (hs.effective he c)
  rcases hrun : s.stepValue c with ⟨outcome, s'⟩
  rw [hrun] at hends
  cases outcome with
  | ok a =>
    obtain ⟨w', hs', hmoves, hplan⟩ := hends
    exact ⟨w', hs', Moves.tally countRule_exactly hmoves hs.sound he, .done hplan⟩
  | error f =>
    obtain ⟨w', hs', hmoves, hw, hfails⟩ := hends
    refine ⟨w', hs', Moves.tally countRule_exactly hmoves hs.sound he, ?_⟩
    show Plain.Step c (.of s w) (.error f) ⟨s'.faces, Written.cells w'⟩
    obtain ⟨hregisters, hcause⟩ | ⟨hblames, hupgrades⟩ := hfails
    · -- a command that fails may have made cells before, but the registers know nothing of them
      rw [hregisters]
      exact .failed hcause (Written.cells_mono hw)
    · refine .crowded (he.isOverflow hblames) ?_ (Written.cells_mono hw)
      rw [Plain.of, Written.length_cells]
      exact hupgrades.faces

end Session

/-! ## Runs -/

/-- The plain store accounts for what the commands do to the session: it is shown before and after
each of them, each has the reply that the plain store gives, and only a command that writes, and
succeeds, changes entries. A block is only found to have too many owners if it had that many to
within the references that the command takes. -/
inductive Plain.Explains : Plain → Session Value → List ValueCommand → Prop where
  /-- no commands are left -/
  | done {p : Plain} {s : Session Value} (hshows : s.Shows p) : Explains p s []
  /-- the next command -/
  | step {p p' : Plain} {s : Session Value} {c : ValueCommand} {cs : List ValueCommand}
      (hshows : s.Shows p) (hstep : Step c p ((s.stepValue c).1.map ValueAnswer.reply) p')
      (hkept : (¬ c.Writes ∨ ∃ f, (s.stepValue c).1 = .error f) → p.cells <+: p'.cells)
      (hcrowded : ∀ b, (s.stepValue c).1 = .error (.fault (.overflow b)) →
        Config.countRange ≤ s.heap.count b + c.takes s.toRegisters)
      (hrest : Explains p' (s.stepValue c).2 cs) : Explains p s (c :: cs)

/-- A session in order is explained by what it shows, whatever is done from there. -/
theorem Session.InOrder.explains {cs : List ValueCommand} {s : Session Value} {w : Written Value}
    (hs : s.InOrder w) (he : (s.ledger w).Exact) (hcs : ∀ c ∈ cs, c.Steady) :
    Plain.Explains (.of s w) s cs := by
  induction cs generalizing s w with
  | nil => exact .done (hs.shows he)
  | cons c cs ih =>
    obtain ⟨w', hs', he', hstep⟩ := hs.step_refines he (hcs c List.mem_cons_self)
    have hclimbs := Session.climbs_stepValue (hcs c List.mem_cons_self) s
    refine .step (hs.shows he) hstep (fun hc => hstep.cells_mono (hc.imp_right ?_))
      (fun b hf => hclimbs.overflow _ b hf rfl)
      (ih hs' he' fun c' hc' => hcs c' (List.mem_cons_of_mem c hc'))
    rintro ⟨f, hf⟩
    exact ⟨f, by rw [hf]; rfl⟩

/-- A run that sets no count by hand is a run of a plain store, from its start to its end, whatever
system it has its memory from. Cascades do not show in it: whatever they leave of the blocks holds
the data that it held before. -/
theorem Plain.explains_run {cs : List ValueCommand} (hcs : ∀ c ∈ cs, c.Steady) (system : System) :
    Plain.Explains {} (.empty system) cs ∧
      ∀ (ts : List (Task Value)) (h : Heap Value) b block, (h.settle ts).block? b = some block →
        ∃ before, h.block? b = some before ∧ block.data = before.data := by
  refine ⟨(Session.inOrder_empty system).explains nofun hcs, fun ts h b block hb => ?_⟩
  obtain ⟨before, hbefore, hcontents⟩ := Heap.contents_settle ts h hb
  exact ⟨before, hbefore, by rw [Block.data, Block.data, hcontents]⟩

/-- A cell made by a write through a null pointer is exchanged with one that has two handles, and
both handles find what was written. -/
theorem exchange_is_explained :
    let cs := [.common (.allocate "a" (.int 5)), .common (.copy "b" "a"), .common (.null "c"),
      .common (.set "c" (.list [.handle "a"])), .common (.swap "b" "c"),
      .common (.get "a" (some "x"))]
    let s := Session.runValue cs (.empty (.ofMemory 100))
    Plain.Explains {} (.empty (.ofMemory 100)) cs ∧ s.handles.lookup "c" = some (.cells 1 1) ∧
      ∃ v, s.values.lookup "x" = some v ∧ (v.datum == .list [.pointer (.cells 0 1)]) = true := by
  intro cs s
  refine ⟨(Plain.explains_run (by simp [cs, ValueCommand.Steady, Command.Steady]) _).1,
    by decide +kernel, ?_⟩
  obtain ⟨v, hv⟩ : ∃ v, s.values.lookup "x" = some v :=
    Option.isSome_iff_exists.mp (by decide +kernel)
  have hdatum : (s.values.lookup "x").all (·.datum == .list [.pointer (.cells 0 1)]) = true := by
    decide +kernel
  rw [hv] at hdatum
  exact ⟨v, hv, hdatum⟩

end CountedCells

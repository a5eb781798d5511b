import CountedCells.Proofs.Owners

/-!
# Runs: what every command keeps in order

A session is **in order** if its ledger is sound and the record, the statistics and the accesses
are as they should be. Every command keeps a session in order (`InOrder.step`), because what it does
to the ledger is made of moves. The two commands that set a count by hand are no moves; they keep a
session in order as long as the count is zero then or covers the owners.

Sessions are `Reached` by runs of any length, on whatever system, one step for each command. Two
kinds of runs are of interest: **careful** ones, where counts may be set by hand, and **steady**
ones, where they are not; in these all counts stay exact, and so a pointer can be rebuilt wherever
there is a block. What the commands for any host do is said for every host; the commands on values
are a few more, and runs of either kind are told by one definition.
-/

namespace CountedCells

open Attempt

variable {V : Type} [Host V] [Faced V]

/-! ## What a command passes through -/

omit [Faced V] in
/-- Carrying out a task tells of one event at most. -/
theorem Task.trace_carryOut (t : Task V) (h : Heap V) :
    (t.carryOut h).2.trace = h.trace ∨ ∃ e, (t.carryOut h).2.trace = e :: h.trace := by
  have hexpect (b n : Nat) : (h.expect b n).trace = h.trace := by
    rw [Heap.expect]
    split <;> rfl
  cases t with
  | disown holder v => exact .inr ⟨_, rfl⟩
  | drop r =>
    cases r with
    | block b n =>
      simp only [carryOut]
      split
      · exact .inl (hexpect b n)
      · split
        · exact .inr ⟨_, congrArg _ (hexpect b n)⟩
        · exact .inr ⟨_, congrArg _ (hexpect b n)⟩
        · exact .inl (hexpect b n)
    | payload p =>
      simp only [carryOut]
      split
      · exact .inl rfl
      · split <;> exact .inl rfl

/-- A move tells of one event at most. -/
theorem Move.trace {l l' : Ledger V} (m : Move l l') :
    l'.heap.trace = l.heap.trace ∨ ∃ e, l'.heap.trace = e :: l.heap.trace := by
  cases m with
  | allocate _ | report _ | note _ | unsettle _ => exact .inr ⟨_, rfl⟩
  | @take h os w r hr hlive hroom =>
    cases r with
    | block b n => exact .inl rfl
    | payload p => exact .inl rfl
  | swap hb hi hc hj => exact .inl (by rw [Heap.swap_eq hb hi hc hj]; rfl)
  | task t => exact t.trace_carryOut _
  | adopt _ | part | share _ _ | write _ _ | lapse _ | configure _ => exact .inl rfl

/-- Each moment that the trace tells of is passed by the moves. -/
theorem Moves.exists_of_trace {l l' : Ledger V} (ms : Moves l l') {t : List (Event V)}
    (hbefore : l.heap.trace <:+ t) (hafter : t <:+ l'.heap.trace) :
    ∃ m, Moves l m ∧ Moves m l' ∧ m.heap.trace = t := by
  induction ms with
  | refl => exact ⟨l, .refl, .refl, hbefore.eq_of_length_le hafter.length_le⟩
  | @tail l₁ l₂ ms m ih =>
    have hpassed (h : t <:+ l₁.heap.trace) : ∃ m, Moves l m ∧ Moves m l₂ ∧ m.heap.trace = t := by
      obtain ⟨k, hk, hrest, htrace⟩ := ih h
      exact ⟨k, hk, hrest.tail m, htrace⟩
    rcases m.trace with htrace | ⟨e, htrace⟩
    · exact hpassed (htrace ▸ hafter)
    · -- the moment is the last one, or it was there before the last event
      rw [htrace] at hafter
      rcases List.suffix_cons_iff.mp hafter with heq | h
      · exact ⟨l₂, ms.tail m, .refl, htrace.trans heq.symm⟩
      · exact hpassed h

/-- One session leads to another by moves, and a property holds all the way. At each moment that the
trace of the way tells of, there is a ledger on it that has the property; and so has everything else
that moves can lead to. -/
def Session.Throughout (P : Ledger V → Prop) (s s' : Session V) : Prop :=
  ∃ w w', Moves (s.ledger w) (s'.ledger w') ∧
    (∀ t, s.heap.trace <:+ t → t <:+ s'.heap.trace →
      ∃ l, Moves (s.ledger w) l ∧ Moves l (s'.ledger w') ∧ l.heap.trace = t ∧ P l) ∧
    ∀ l, Moves (s.ledger w) l → P l

theorem Session.Throughout.of_moves {P : Ledger V → Prop} {s s' : Session V} {w w' : Written V}
    (hmoves : Moves (s.ledger w) (s'.ledger w')) (hP : ∀ l, Moves (s.ledger w) l → P l) :
    s.Throughout P s' := by
  refine ⟨w, w', hmoves, fun t hbefore hafter => ?_, hP⟩
  obtain ⟨l, hl, hrest, htrace⟩ := Moves.exists_of_trace hmoves hbefore hafter
  exact ⟨l, hl, hrest, htrace, hP l hl⟩

/-! ## Order -/

namespace Session

/-- A session that nothing is wrong with. -/
structure InOrder (s : Session V) (w : Written V) : Prop where
  /-- references lead somewhere, and counts cover the owners -/
  sound : (s.ledger w).Sound
  /-- raw blocks are there for their references -/
  proper : s.Proper
  /-- the record tells what the cells hold -/
  recorded : s.heap.Recorded w
  /-- blocks are as they were made -/
  unaltered : s.heap.Unaltered
  /-- every access found what it relied on -/
  strays : s.heap.strays = []
  /-- the statistics add up -/
  accounted : s.heap.Accounted

theorem inOrder_empty (system : System) : (empty system : Session V).InOrder [] where
  sound := Ledger.sound_empty system
  proper := List.forall_mem_nil _
  recorded := ⟨rfl, nofun⟩
  unaltered := ⟨nofun, nofun, nofun⟩
  strays := rfl
  accounted := rfl

namespace InOrder

variable {s s' : Session V} {w w' : Written V}

/-- A session in order is where a command can start from. -/
theorem held (hs : s.InOrder w) : Held (s.ledger w) s 0 w :=
  ⟨(Stage.start hs.sound hs.recorded).reown (add_zero _).symm, hs.proper⟩

theorem moves_of_held (held : Held (s.ledger w) s' 0 w') :
    Moves (s.ledger w) (s'.ledger w') := by
  have hmoves := held.stage.moves
  rwa [add_zero] at hmoves

/-- Moves keep a session in order. -/
theorem of_moves (hs : s.InOrder w) (hmoves : Moves (s.ledger w) (s'.ledger w'))
    (hproper : s'.Proper) : s'.InOrder w' :=
  ⟨Moves.sound hmoves hs.sound, hproper,
    Moves.keeps Heap.kept_recorded hmoves hs.sound hs.recorded,
    Moves.keeps Heap.kept_unaltered hmoves hs.sound hs.unaltered,
    Moves.keeps (Heap.kept_strays []) hmoves hs.sound hs.strays,
    Moves.keeps Heap.kept_accounted hmoves hs.sound hs.accounted⟩

theorem after (hs : s.InOrder w) (held : Held (s.ledger w) s' 0 w') : s'.InOrder w' :=
  hs.of_moves (moves_of_held held) held.proper

/-- Setting a count by hand does no harm if it is zero then, or covers the owners. -/
theorem setCount (hs : s.InOrder w) {b : BlockId} {n : Nat} (hn : Covered n (s.ownersOf b)) :
    (s.mapHeap (·.setCount b n)).InOrder w := by
  rw [← ownersOf_ledger hs.sound] at hn
  exact ⟨Ledger.Sound.setCount hs.sound hn, hs.proper, Heap.kept_recorded.setCount b n hs.recorded,
    Heap.kept_unaltered.setCount (w := w) b n hs.unaltered,
    (Heap.kept_strays []).setCount (w := w) b n hs.strays,
    Heap.kept_accounted.setCount (w := w) b n hs.accounted⟩

end InOrder

variable {s s' : Session V} {w : Written V}

/-- Where a careful command leads from a session in order. -/
inductive Advances (s : Session V) (w : Written V) (s' : Session V) : Prop where
  /-- to another session in order, by moves -/
  | moves {w' : Written V} (hs' : s'.InOrder w') (hmoves : Moves (s.ledger w) (s'.ledger w'))
  /-- a count is set by hand, to zero or to something that covers the owners -/
  | setCount {b : BlockId} {n : Nat} (hn : Covered n (s.ownersOf b))
      (heq : s' = s.mapHeap (·.setCount b n))

/-- Both ways the session stays in order. -/
theorem Advances.inOrder (ha : s.Advances w s') (hs : s.InOrder w) : ∃ w', s'.InOrder w' := by
  cases ha with
  | moves hs' _ => exact ⟨_, hs'⟩
  | setCount hn heq =>
    rw [heq]
    exact ⟨w, hs.setCount hn⟩

end Session

/-! ## One command for any host -/

section

variable {E : Type} [Expression E V] {s : Session V} {w : Written V} {c : Command E}

/-- Counts are set by hand only to zero or to something that covers the owners, and pointers are
rebuilt only where there is a count. -/
def Command.Careful (c : Command E) (s : Session V) : Prop :=
  match c with
  | .rawRestore u n => ∀ r, s.raws.lookup u = some r → n = 0 ∨ s.ownersOf r.block ≤ n.toNat
  | c => c.Sensible s

omit [Expression E V] in
theorem Command.Careful.sensible (hc : c.Careful s) : c.Sensible s := by
  cases c with
  | rawRestore u n => trivial
  | _ => exact hc

omit [Faced V] in
/-- A command that sets the count of a raw block. -/
theorem Session.step_setCount {name : String} {u : RawBlock} {n : Nat}
    (hc : Act.ofCommand c = (do
      let r ← Act.rawBlock name
      Act.updateHeap (·.setCount r.block n)
      pure .done : Act V (Answer V)))
    (hu : s.raws.lookup name = some u) :
    s.step c = (.ok .done, s.mapHeap (·.setCount u.block n)) := by
  rw [Session.step, hc, bind_of_ok (Act.rawBlock_apply hu)]
  rfl

namespace Session.InOrder

/-- A raw block whose count is zero gives nothing back, and nothing happens. -/
theorem step_release_expired (hs : s.InOrder w) {name : String} {u : RawBlock}
    (hu : s.raws.lookup name = some u) (hcount : s.heap.count u.block = 0) :
    s.step (.rawRelease name : Command E) = (.ok (.released .expired), s) := by
  have hr := Registers.mem_refs_raw (le_refl s.owners) hs.proper hu
  obtain ⟨block, hb, hsize⟩ := (Stage.start hs.sound hs.recorded).exists_block
    (Ledger.mem_refs_of_owned hr)
  have hrelease : s.heap.release u.block u.size = (.expired, s.heap) := by
    simp only [Heap.release, hcount]
    rw [← hsize, Heap.expect_eq hb]
  refine (bind_of_ok (Act.rawBlock_apply hu)).trans ?_
  rw [bind_of_ok (Act.releaseRaw_apply hrelease)]
  rfl

/-- A command that sets no count is made of moves, and keeps a session in order. -/
theorem step_command [Meaning E] [Faithful E V] (hs : s.InOrder w) (hsteady : c.Steady)
    (hsensible : c.Sensible s) :
    ∃ w', (s.step c).2.InOrder w' ∧ Moves (s.ledger w) ((s.step c).2.ledger w') := by
  obtain heffective | ⟨name, u, rfl, hu, hcount⟩ := c.effective_or s
  swap
  · rw [hs.step_release_expired hu hcount]
    exact ⟨w, hs, .refl⟩
  have hfollows := Follows.command c hs.held hsteady hsensible heffective
  rcases hrun : s.step c with ⟨f | a, s'⟩
  · rw [← Session.step, hrun] at hfollows
    obtain ⟨w', held, -⟩ := hfollows
    exact ⟨w', hs.after held, moves_of_held held⟩
  · rw [← Session.step, hrun] at hfollows
    obtain ⟨w', held, -⟩ := hfollows
    have held' : Held (s.ledger w) s' 0 w' := held.reown (zero_add 0)
    exact ⟨w', hs.after held', moves_of_held held'⟩

omit [Expression E V] in
/-- With exact counts, every block has one. -/
theorem sensible_command (hs : s.InOrder w) (he : (s.ledger w).Exact) (c : Command E) :
    c.Sensible s := by
  -- only rebuilding asks for anything
  cases c with
  | rebuild h o n =>
    intro b hb
    have hmem := Origin.mem_refs_of_target? (le_refl s.owners) hs.proper hb
    exact (Stage.start hs.sound hs.recorded).count_pos he (Ledger.mem_refs_of_owned hmem)
  | _ => trivial

/-- A command that sets the count of a raw block, if there is one. -/
theorem advances_setCount (hs : s.InOrder w) {u : String} {n : Nat}
    (hc : Act.ofCommand c = (do
      let r ← Act.rawBlock u
      Act.updateHeap (·.setCount r.block n)
      pure .done : Act V (Answer V)))
    (hn : ∀ r, s.raws.lookup u = some r → Covered n (s.ownersOf r.block)) :
    s.Advances w (s.step c).2 := by
  rcases hu : s.raws.lookup u with - | r
  · have hraw : Act.rawBlock u s = (.error (.noRaw u), s) := by
      rw [Act.rawBlock, find_apply, Registers.rawNamed, hu]
    rw [Session.step, hc, bind_of_error hraw]
    exact .moves hs .refl
  · rw [step_setCount hc hu]
    exact .setCount (hn r hu) rfl

/-- A careful command sets a count by hand and does nothing else, or it is made of moves. -/
theorem advances_step [Meaning E] [Faithful E V] (hs : s.InOrder w) (hc : c.Careful s) :
    s.Advances w (s.step c).2 := by
  have hordinary (hsteady : c.Steady) : s.Advances w (s.step c).2 := by
    obtain ⟨w', hs', hmoves⟩ := hs.step_command hsteady hc.sensible
    exact .moves hs' hmoves
  cases c with
  | rawExpire u => exact hs.advances_setCount rfl fun _ _ => ⟨.inl rfl, by decide⟩
  | rawRestore u n =>
    exact hs.advances_setCount rfl fun r hr => ⟨(hc r hr).imp_left (congrArg _), n.toNat_lt⟩
  | _ => exact hordinary trivial

end Session.InOrder

end

/-! ## One command on values -/

namespace ValueCommand

/-- Counts are set by hand only to zero or to something that covers the owners, and pointers are
rebuilt only where there is a count. -/
def Careful (c : ValueCommand) (s : Session Value) : Prop :=
  match c with
  | .common (.rawRestore u n) =>
    ∀ r, s.raws.lookup u = some r → n = 0 ∨ s.ownersOf r.block ≤ n.toNat
  | c => c.Sensible s

/-- A command for any host is careful in a session with values if it is careful. -/
theorem careful_common {c : Command Term} {s : Session Value}
    (hc : (ValueCommand.common c).Careful s) : c.Careful s := by
  cases c <;> exact hc

theorem Careful.sensible {c : ValueCommand} {s : Session Value} (hc : c.Careful s) :
    c.Sensible s := by
  cases c with
  | common c => exact (careful_common hc).sensible
  | _ => trivial

end ValueCommand

theorem Session.stepValue_common (s : Session Value) (c : Command Term) :
    s.stepValue (.common c) = ((s.step c).1.map .common, (s.step c).2) := by
  rcases hrun : s.step c with ⟨f | a, s'⟩
  · exact bind_of_error hrun
  · exact bind_of_ok hrun

namespace Session.InOrder

variable {s : Session Value} {w : Written Value}

/-- A command that sets no count follows its plan, and keeps a session in order. -/
theorem ends_step (hs : s.InOrder w) {c : ValueCommand} (hsteady : c.Steady)
    (hsensible : c.Sensible s) (heffective : c.Effective s) :
    Ends (s.stepValue c)
      (fun a s' => ∃ w', s'.InOrder w' ∧ Moves (s.ledger w) (s'.ledger w') ∧
        Plan.ofValueCommand c (.of s w) = .ok (a.reply, .of s' w'))
      (fun f s' => ∃ w', s'.InOrder w' ∧ Moves (s.ledger w) (s'.ledger w') ∧
        Fails (s.ledger w) c.MakesCells (Plan.ofValueCommand c) s w f s' w') := by
  refine (Follows.valueCommand c hs.held hsteady hsensible heffective).mono ?_ ?_
  · rintro a s' ⟨w', held, hplan⟩
    have held' : Held (s.ledger w) s' 0 w' := held.reown (zero_add 0)
    exact ⟨w', hs.after held', moves_of_held held', hplan⟩
  · rintro f s' ⟨w', held, hfails⟩
    exact ⟨w', hs.after held, moves_of_held held, hfails⟩

/-- A command that sets no count is made of moves. -/
theorem step (hs : s.InOrder w) {c : ValueCommand} (hsteady : c.Steady) (hsensible : c.Sensible s) :
    ∃ w', (s.stepValue c).2.InOrder w' ∧ Moves (s.ledger w) ((s.stepValue c).2.ledger w') := by
  have heffective (hc : c.Effective s) :
      ∃ w', (s.stepValue c).2.InOrder w' ∧ Moves (s.ledger w) ((s.stepValue c).2.ledger w') := by
    have hends := hs.ends_step hsteady hsensible hc
    rcases hrun : s.stepValue c with ⟨outcome, s'⟩
    rw [hrun] at hends
    cases outcome with
    | ok a =>
      obtain ⟨w', hs', hmoves, -⟩ := hends
      exact ⟨w', hs', hmoves⟩
    | error f =>
      obtain ⟨w', hs', hmoves, -⟩ := hends
      exact ⟨w', hs', hmoves⟩
  cases c with
  | common c =>
    rw [stepValue_common]
    exact hs.step_command hsteady hsensible
  | _ => exact heffective trivial

/-- With exact counts, every block has one. -/
theorem sensible (hs : s.InOrder w) (he : (s.ledger w).Exact) (c : ValueCommand) :
    c.Sensible s := by
  cases c with
  | common c => exact hs.sensible_command he c
  | _ => trivial

/-- Where counts are exact, a command that sets none of them keeps them so. -/
theorem step_exact (hs : s.InOrder w) (he : (s.ledger w).Exact) {c : ValueCommand}
    (hc : c.Steady) :
    ∃ w', (s.stepValue c).2.InOrder w' ∧ ((s.stepValue c).2.ledger w').Exact ∧
      Moves (s.ledger w) ((s.stepValue c).2.ledger w') := by
  obtain ⟨w', hs', hmoves⟩ := hs.step hc (hs.sensible he c)
  exact ⟨w', hs', Moves.tally countRule_exactly hmoves hs.sound he, hmoves⟩

/-- With exact counts, raw blocks have theirs. -/
theorem count_raw_pos (hs : s.InOrder w) (he : (s.ledger w).Exact) {name : String} {u : RawBlock}
    (hu : s.raws.lookup name = some u) : 0 < s.heap.count u.block := by
  have hr := Registers.mem_refs_raw (le_refl s.owners) hs.proper hu
  exact (Stage.start hs.sound hs.recorded).count_pos he (Ledger.mem_refs_of_owned hr)

theorem effective (hs : s.InOrder w) (he : (s.ledger w).Exact) (c : ValueCommand) :
    c.Effective s := by
  cases c with
  | common c =>
    cases c with
    | rawRelease name => exact fun u hu => hs.count_raw_pos he hu
    | _ => trivial
  | _ => trivial

/-- A careful command sets a count by hand and does nothing else, or it is made of moves. -/
theorem advances_stepValue (hs : s.InOrder w) {c : ValueCommand} (hc : c.Careful s) :
    s.Advances w (s.stepValue c).2 := by
  have hordinary (hsteady : c.Steady) : s.Advances w (s.stepValue c).2 := by
    obtain ⟨w', hs', hmoves⟩ := hs.step hsteady hc.sensible
    exact .moves hs' hmoves
  cases c with
  | common c =>
    rw [stepValue_common]
    exact hs.advances_step (ValueCommand.careful_common hc)
  | _ => exact hordinary trivial

end Session.InOrder

/-! ## Runs -/

/-- The sessions that commands can reach, one step for each, if they are allowed. -/
inductive Reached {V C A : Type} (step : C → Session V → Except Failure A × Session V)
    (allowed : C → Session V → Prop) : Session V → Prop where
  /-- where nothing has happened yet, on whatever system -/
  | start (system : System) : Reached step allowed (.empty system)
  /-- one command more, whether it succeeds or fails -/
  | step {s : Session V} (hs : Reached step allowed s) {c : C} (hc : allowed c s) :
      Reached step allowed (step c s).2

namespace Reached

section

variable {C A : Type} {step : C → Session V → Except Failure A × Session V}
  {allowed : C → Session V → Prop} {s : Session V}

omit [Host V] [Faced V] in
/-- What commands reach that are allowed anywhere. -/
theorem runBy {cs : List C} (hs : Reached step allowed s) (hcs : ∀ c ∈ cs, ∀ s, allowed c s) :
    Reached step allowed (s.runBy step cs) :=
  Session.runBy_induction (fun c hc s hs => hs.step (hcs c hc s)) hs

/-- What commands that advance a session keep, besides its order. -/
theorem keeps {P : Session V → Prop} (hstart : ∀ system, P (.empty system))
    (hadvances : ∀ {s w c}, s.InOrder w → allowed c s → s.Advances w (step c s).2)
    (hP : ∀ {s s' w}, s.InOrder w → P s → s.Advances w s' → P s')
    (hs : Reached step allowed s) : ∃ w, s.InOrder w ∧ P s := by
  induction hs with
  | start system => exact ⟨[], Session.inOrder_empty system, hstart system⟩
  | step hs hc ih =>
    obtain ⟨w, hs, hp⟩ := ih
    have ha := hadvances hs hc
    obtain ⟨w', hs'⟩ := ha.inOrder hs
    exact ⟨w', hs', hP hs hp ha⟩

/-- Commands that are made of moves where counts are exact keep them exact. -/
theorem exact_of (hmoves : ∀ {s w c}, s.InOrder w → (s.ledger w).Exact → allowed c s →
      ∃ w', (step c s).2.InOrder w' ∧ Moves (s.ledger w) ((step c s).2.ledger w'))
    (hs : Reached step allowed s) :
    ∃ system w, s.InOrder w ∧ (s.ledger w).Exact ∧ Moves (Ledger.empty system) (s.ledger w) := by
  induction hs with
  | start system => exact ⟨system, [], Session.inOrder_empty system, nofun, .refl⟩
  | @step s hs c hc ih =>
    obtain ⟨system, w, hs, he, hms⟩ := ih
    obtain ⟨w', hs', hms'⟩ := hmoves hs he hc
    exact ⟨system, w', hs', Moves.tally countRule_exactly hms' hs.sound he, hms.trans hms'⟩

end

section

variable {s : Session Value}

/-- Careful runs keep a session in order. -/
theorem inOrder (hs : Reached Session.stepValue ValueCommand.Careful s) : ∃ w, s.InOrder w := by
  obtain ⟨w, hs, -⟩ := hs.keeps (P := fun _ => True) (fun _ => trivial)
    (fun hs hc => hs.advances_stepValue hc) fun _ _ _ => trivial
  exact ⟨w, hs⟩

/-- Steady runs are made of moves, and keep all counts exact. -/
theorem exact (hs : Reached Session.stepValue (fun c _ => c.Steady) s) :
    ∃ system w, s.InOrder w ∧ (s.ledger w).Exact ∧ Moves (Ledger.empty system) (s.ledger w) :=
  hs.exact_of fun hs he hc => hs.step hc (hs.sensible he _)

end

/-- In a session of any host, too. -/
theorem exact_step {E : Type} [Expression E V] [Meaning E] [Faithful E V] {s : Session V}
    (hs : Reached (Session.step (E := E)) (fun c _ => c.Steady) s) :
    ∃ system w, s.InOrder w ∧ (s.ledger w).Exact ∧ Moves (Ledger.empty system) (s.ledger w) :=
  hs.exact_of fun hs he hc => hs.step_command hc (hs.sensible_command he _)

end Reached
end CountedCells

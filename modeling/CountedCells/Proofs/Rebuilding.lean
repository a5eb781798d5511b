import CountedCells.Proofs.Hosts
import CountedCells.Proofs.Related

/-!
# Rebuilding: a pointer from an address is as good as a bound one

A pointer that is rebuilt from the address of a handle, with its number of cells, takes a reference
without looking at the count. Where the count is not zero, this is what binding does. What remains
different is the flag, and that the trace tells of rebuilding: the heaps are `Parallel`. This is a
congruence, so nothing that happens later can tell the two apart, except by asking for the flag
(`Session.Twins`).

The flag is lost with the first pointer that is rebuilt, also where it comes out null, and never
comes back. A warning is told exactly when this happens: it is the first event of the command that
rebuilds the first pointer, and there is no other one.
-/

namespace CountedCells

open Attempt
open scoped Relator

variable {V : Type}

/-! ## Parallel heaps -/

/-- The event tells of a pointer that is rebuilt. -/
def Event.ofRebuilding : Event V → Bool
  | .unstable | .rebuilt _ _ => true
  | _ => false

namespace Heap

/-- Nothing differs but the flag and what is told of rebuilding. -/
structure Parallel (h g : Heap V) : Prop extends h.Matches g where
  /-- the same accesses have found nothing -/
  strays : h.strays = g.strays
  /-- the same is told of everything else -/
  told : h.trace.filter (!·.ofRebuilding) = g.trace.filter (!·.ofRebuilding)

namespace Parallel

variable {h g k : Heap V}

theorem refl (h : Heap V) : h.Parallel h := ⟨⟨rfl, rfl, rfl, rfl, rfl⟩, rfl, rfl⟩

theorem symm (hp : h.Parallel g) : g.Parallel h :=
  ⟨⟨hp.system.symm, hp.blocks.symm, hp.payloads.symm, hp.stats.symm, hp.config.symm⟩,
    hp.strays.symm, hp.told.symm⟩

theorem trans (hp : h.Parallel g) (hp' : g.Parallel k) : h.Parallel k :=
  ⟨⟨hp.system.trans hp'.system, hp.blocks.trans hp'.blocks, hp.payloads.trans hp'.payloads,
    hp.stats.trans hp'.stats, hp.config.trans hp'.config⟩, hp.strays.trans hp'.strays,
    hp.told.trans hp'.told⟩

/-- Both tell of one more event. -/
theorem log (hp : h.Parallel g) (e : Event V) : (h.log e).Parallel (g.log e) := by
  refine ⟨⟨hp.system, hp.blocks, hp.payloads, hp.stats, hp.config⟩, hp.strays, ?_⟩
  simp only [Heap.log, List.filter_cons, hp.told]

/-- One of them tells of rebuilding. -/
theorem log_right (hp : h.Parallel g) {e : Event V} (he : e.ofRebuilding = true) :
    h.Parallel (g.log e) := by
  refine ⟨⟨hp.system, hp.blocks, hp.payloads, hp.stats, hp.config⟩, hp.strays, ?_⟩
  rw [hp.told, Heap.log, List.filter_cons_of_neg (by simp [he])]

theorem unsettled (h : Heap V) : h.Parallel h.unsettled := by
  have hflag : h.Parallel { h with stable := false } := ⟨⟨rfl, rfl, rfl, rfl, rfl⟩, rfl, rfl⟩
  rw [Heap.unsettled]
  split
  · exact hflag.log_right rfl
  · exact refl h

end Parallel

theorem congruence_parallel : Congruence (Parallel (V := V)) where
  alike _ _ hp := hp.toMatches
  addBlock h g n hp _ := by
    have hlog := hp.log (.allocated n h.blocks.length)
    refine ⟨⟨hp.system, ?_, hp.payloads, ?_, hp.config⟩, hp.strays, ?_⟩
    · simp only [addBlock, hp.blocks]
    · simp only [addBlock, hp.stats]
    · rw [addBlock, addBlock, ← hp.blocks]
      exact hlog.told
  destroy b n h g hp := by
    refine ⟨⟨hp.system, ?_, hp.payloads, ?_, hp.config⟩, hp.strays,
      (hp.log (.destroyed n b)).told⟩
    · simp only [destroy, hp.blocks]
    · simp only [destroy, hp.stats]
  mapBlock b f h g hp := by
    refine ⟨⟨hp.system, ?_, hp.payloads, hp.stats, hp.config⟩, hp.strays, hp.told⟩
    simp only [mapBlock, hp.blocks]
  payloads ps _ _ hp := ⟨⟨hp.system, hp.blocks, rfl, hp.stats, hp.config⟩, hp.strays, hp.told⟩
  log _ _ e hp _ := hp.log e
  stray _ _ a hp :=
    ⟨⟨hp.system, hp.blocks, hp.payloads, hp.stats, hp.config⟩, congrArg (a :: ·) hp.strays, hp.told⟩

end Heap

/-- The command asks for the flag. -/
def Command.AsksFlag {E : Type} : Command E → Prop
  | .stability => True
  | _ => False

/-- The command on values asks for the flag. -/
def ValueCommand.AsksFlag : ValueCommand → Prop
  | .common c => c.AsksFlag
  | _ => False

theorem Command.suits_parallel {E : Type} {c : Command E} (hc : ¬ c.AsksFlag) :
    c.Suits (Heap.Parallel (V := V)) := by
  cases c with
  | rebuild name o n =>
    intro h g hp
    exact ((Heap.Parallel.unsettled h).symm.trans hp).trans (.unsettled g)
  | configure config =>
    intro h g hp
    exact ⟨⟨hp.system, hp.blocks, hp.payloads, hp.stats, rfl⟩, hp.strays, hp.told⟩
  | stability => exact (hc trivial).elim
  | _ => trivial

theorem ValueCommand.suits_parallel {c : ValueCommand} (hc : ¬ c.AsksFlag) :
    c.Suits Heap.Parallel := by
  cases c with
  | common c => exact Command.suits_parallel hc
  | _ => trivial

/-! ## Twins -/

/-- Whatever commands follow, two sessions stay the same but for the flag and what is told of
rebuilding, and so do they when they are closed. Every command answers the same, unless it asks for
the flag. -/
structure Session.Twins [Host V] {C A : Type} (step : C → Session V → Except Failure A × Session V)
    (asks : C → Prop) (s t : Session V) : Prop where
  /-- the owners are the same, and the heaps are parallel -/
  related : ∀ cs, Related Heap.Parallel (s.runBy step cs) (t.runBy step cs)
  /-- the answers are the same -/
  answers : ∀ cs c, ¬ asks c → (step c (s.runBy step cs)).1 = (step c (t.runBy step cs)).1
  /-- closing the sessions leaves parallel heaps -/
  closed : ∀ cs, Related Heap.Parallel (s.runBy step cs).close (t.runBy step cs).close

/-- Related sessions are twins in every language of commands that respects what is related. -/
theorem Session.twins [Host V] {C A : Type} {step : C → Session V → Except Failure A × Session V}
    {asks : C → Prop} (hstep : ∀ c, ¬ asks c → ∀ ⦃s t⦄, Related Heap.Parallel s t →
      (step c s).1 = (step c t).1 ∧ Related Heap.Parallel (step c s).2 (step c t).2)
    (hasks : ∀ c, asks c → ∀ s, (step c s).2 = s) {s t : Session V}
    (h : Related Heap.Parallel s t) : s.Twins step asks t := by
  have hrelated : ∀ cs, Related Heap.Parallel (s.runBy step cs) (t.runBy step cs) := by
    intro cs
    induction cs generalizing s t with
    | nil => exact h
    | cons c cs ih =>
      refine ih ?_
      show Related Heap.Parallel (step c s).2 (step c t).2
      by_cases hc : asks c
      · rwa [hasks c hc, hasks c hc]
      · exact (hstep c hc h).2
  exact ⟨hrelated, fun cs c hc => (hstep c hc (hrelated cs)).1,
    fun cs => Heap.congruence_parallel.close (hrelated cs)⟩

/-! ## Binding and rebuilding -/

section

variable [Host V]

omit [Host V] in
/-- Where there is a count, binding a pointer and rebuilding it from its address take the same
reference, unless neither can raise the count. -/
theorem Pointer.bind_parallel_anchor {p : Pointer} {h : Heap V}
    (hp : ∀ b n, p = .cells b n → 0 < h.count b) :
    (p.bind h).1 = (Pointer.anchor p.address p.size h.unsettled).1 ∧
      (p.bind h).2.Parallel (Pointer.anchor p.address p.size h.unsettled).2 := by
  have hflag := Heap.Parallel.unsettled h
  cases p with
  | null => exact ⟨rfl, hflag⟩
  | cells b n =>
    have hpos := hp b n rfl
    obtain ⟨block, hb⟩ : ∃ block, h.block? b = some block := by
      rcases hb : h.block? b with - | block
      · rw [Heap.count, hb] at hpos
        exact absurd hpos (Nat.lt_irrefl 0)
      · exact ⟨block, rfl⟩
    -- both ways the count is raised, and there is one way to do this
    have hretain : Heap.retain b h = Heap.raise b h := Heap.retainOr_of_pos hpos _
    have hunchecked : Heap.retainUnchecked b h.unsettled = Heap.raise b h.unsettled := by
      have htouch : h.unsettled.touch b 0 = h.unsettled :=
        Heap.touch_eq (hflag.block? b ▸ hb) (Nat.succ_pos _)
      refine (bind_of_ok (update_apply _ _)).trans ?_
      rw [htouch]
    obtain ⟨hresult, hraised⟩ := Heap.congruence_parallel.raise b hflag
    show ((Pointer.cells b n).bind h).1 = (Pointer.anchor (.block b) n h.unsettled).1 ∧
      ((Pointer.cells b n).bind h).2.Parallel (Pointer.anchor (.block b) n h.unsettled).2
    rcases hh : Heap.raise b h with ⟨f | u, h'⟩ <;>
      rcases hg : Heap.raise b h.unsettled with ⟨x, g⟩ <;> rw [hh, hg] at hresult hraised
    · obtain rfl : .error f = x := hresult
      have hbind : (Pointer.cells b n).bind h = (.error f, h') :=
        bind_of_error (hretain.trans hh)
      have hanchor : Pointer.anchor (.block b) n h.unsettled = (.error f, g) :=
        bind_of_error (hunchecked.trans hg)
      rw [hbind, hanchor]
      exact ⟨rfl, hraised⟩
    · obtain rfl : .ok u = x := hresult
      have hbind : (Pointer.cells b n).bind h = (.ok (.cells b n), h') :=
        bind_of_ok (hretain.trans hh)
      have hanchor : Pointer.anchor (.block b) n h.unsettled =
          (.ok (.cells b n), g.log (.rebuilt b n)) := bind_of_ok (hunchecked.trans hg)
      rw [hbind, hanchor]
      exact ⟨rfl, hraised.log_right rfl⟩

namespace Session

variable {E : Type} [Expression E V] {s : Session V} {name : String} {o : Origin} {n : Nat}

/-- What a command does that rebuilds a pointer: the flag is lost, and then there is the pointer. -/
theorem step_rebuild {a : Address} (ha : o.address? n s.toRegisters = .ok a) :
    s.step (.rebuild name o n : Command E) =
      (Act.perform (Pointer.anchor a n) >>= Act.made name) (s.mapHeap Heap.unsettled) := by
  have horigin := Origin.originAddress_apply o n s
  rw [ha] at horigin
  have hperform : Act.perform (Pointer.rebuild a n) s =
      Act.perform (Pointer.anchor a n) (s.mapHeap Heap.unsettled) := by
    cases a <;> rfl
  refine (bind_of_ok horigin).trans ?_
  rcases hrun : Act.perform (Pointer.anchor a n) (s.mapHeap Heap.unsettled) with ⟨f | p, s'⟩
  · rw [bind_of_error hrun]
    exact bind_of_error (hperform.trans hrun)
  · rw [bind_of_ok hrun]
    exact bind_of_ok (hperform.trans hrun)

/-- Nothing is done where there is no address to rebuild a pointer from. -/
theorem step_rebuild_of_error {f : Failure} (ha : o.address? n s.toRegisters = .error f) :
    s.step (.rebuild name o n : Command E) = (.error f, s) := by
  have horigin := Origin.originAddress_apply o n s
  rw [ha] at horigin
  exact bind_of_error horigin

/-- A null pointer is given a name. -/
theorem made_null (name : String) (s : Session V) :
    (Act.made name .null s).1 = .ok (.made .null 0) ∧
      (Act.made name .null s).2.handles = Entries.put name .null s.handles := by
  let r : Registers V := { s.toRegisters with handles := Entries.put name .null s.handles }
  have hnamed : ∃ h', Act.nameHandle name .null s = (.ok (), ⟨r, h'⟩) := by
    have hlook : (Attempt.look (·.handles.lookup name) : Act V (Option Pointer)) s =
        (.ok (s.handles.lookup name), s) := rfl
    rcases hold : s.handles.lookup name with - | q <;> rw [hold] at hlook
    · exact ⟨_, bind_of_ok hlook⟩
    · exact ⟨_, bind_of_ok hlook⟩
  obtain ⟨h', hrun⟩ := hnamed
  have hmade : Act.made name .null s = (.ok (.made .null 0), ⟨r, h'⟩) := bind_of_ok hrun
  rw [hmade]
  exact ⟨rfl, rfl⟩

/-- Rebuilding the pointer of a handle is like binding it. -/
theorem bind_related_rebuild (name : String) {source : String} {p : Pointer}
    (hsource : s.handles.lookup source = some p)
    (hcount : ∀ b n, p = .cells b n → 0 < s.heap.count b) :
    let bound := s.step (.bind name source : Command E)
    let rebuilt := s.step (.rebuild name (.handle source) p.size : Command E)
    bound.1 = rebuilt.1 ∧ Related Heap.Parallel bound.2 rebuilt.2 := by
  have hnamed : s.handleNamed source = .ok p := by
    rw [Registers.handleNamed, hsource]
  have haddress : (Origin.handle source).address? p.size s.toRegisters = .ok p.address := by
    simp only [Origin.address?, hnamed]
    cases p with
    | null => rfl
    | cells b n => exact if_pos rfl
  have hhandle : Act.handle source s = (.ok p, s) := by
    rw [Act.handle, find_apply, hnamed]
  have hbind : s.step (.bind name source : Command E) = (Act.perform p.bind >>= Act.made name) s :=
    bind_of_ok hhandle
  obtain ⟨hresult, hheap⟩ := Pointer.bind_parallel_anchor hcount
  rw [step_rebuild haddress, hbind]
  refine Respects.after ?_ ⟨rfl, hheap⟩ fun q => Related.made Heap.congruence_parallel name q
  exact congrArg (Except.mapError Failure.fault) hresult

/-- Rebuilding a pointer where no block is named is like making a null pointer. -/
theorem null_related_rebuild (name : String) {a : Address}
    (ha : o.address? n s.toRegisters = .ok a)
    (hnone : ∀ b, a ≠ .block b) :
    let null := s.step (.null name : Command E)
    let rebuilt := s.step (.rebuild name o n : Command E)
    null.1 = rebuilt.1 ∧ Related Heap.Parallel null.2 rebuilt.2 := by
  have hrebuilt : s.step (.rebuild name o n : Command E) =
      Act.made name .null (s.mapHeap Heap.unsettled) := by
    rw [step_rebuild ha]
    cases a with
    | block b => exact (hnone b rfl).elim
    | sentinel => exact bind_of_ok rfl
    | zero => exact bind_of_ok rfl
  rw [hrebuilt]
  exact Related.made Heap.congruence_parallel name .null ⟨rfl, .unsettled s.heap⟩

end Session

/-- The pointer of a handle has a count where counts are exact. -/
theorem Session.InOrder.handle_counted [Faced V] {s : Session V} {w : Written V} (hs : s.InOrder w)
    (he : (s.ledger w).Exact) {source : String} {p : Pointer}
    (hsource : s.handles.lookup source = some p) :
    ∀ b n, p = .cells b n → 0 < s.heap.count b := by
  rintro b n rfl
  refine hs.sensible_command he (.rebuild source (.handle source) n : Command Unit) b ?_
  rw [Origin.target?, hsource]

end

/-! ## The flag -/

/-- The event is the warning that a pointer was rebuilt for the first time. -/
def Event.isWarning : Event V → Bool
  | .unstable => true
  | _ => false

namespace Heap

/-- The flag is this one, and there was no warning since the trace was that one. -/
def Silent (flag : Bool) (before : List (Event V)) (g : Heap V) : Prop :=
  g.stable = flag ∧ ∃ later, g.trace = later ++ before ∧ ∀ e ∈ later, e.isWarning = false

/-- There was exactly one warning if the flag is lost, and none otherwise. -/
def Warned (h : Heap V) : Prop :=
  h.trace.countP Event.isWarning = if h.stable then 0 else 1

theorem silent_self (h : Heap V) : Silent h.stable h.trace h :=
  ⟨rfl, [], rfl, List.forall_mem_nil _⟩

/-- Whatever changes a heap, it loses no flag and tells no warning. -/
theorem closed_silent (flag : Bool) (before : List (Event V)) : Closed (Silent flag before) := by
  have hcons {g g' : Heap V} {e : Event V} (hg : Silent flag before g)
      (hstable : g'.stable = g.stable) (htrace : g'.trace = e :: g.trace)
      (he : e.isWarning = false) : Silent flag before g' := by
    obtain ⟨hflag, later, hlater, hnone⟩ := hg
    refine ⟨hstable.trans hflag, e :: later, by rw [htrace, hlater, List.cons_append], ?_⟩
    exact List.forall_mem_cons.mpr ⟨he, hnone⟩
  refine ⟨fun h n hg _ => hcons hg rfl rfl rfl, fun h b n hg => hcons hg rfl rfl rfl,
    fun h b f hg => hg, fun h ps hg => hg, fun h e hg he => hcons hg rfl rfl ?_, fun h a hg => hg⟩
  cases e with
  | unstable => exact he.elim
  | _ => rfl

theorem stable_unsettled (h : Heap V) : h.unsettled.stable = false := by
  rw [unsettled]
  split
  · rfl
  · exact Bool.eq_false_of_not_eq_true ‹_›

/-- What a silent stretch keeps. -/
theorem Silent.warned {flag : Bool} {before : List (Event V)} {g : Heap V}
    (hg : Silent flag before g) (hbefore : before.countP Event.isWarning = if flag then 0 else 1) :
    g.Warned := by
  obtain ⟨rfl, later, hlater, hnone⟩ := hg
  rw [Warned, hlater, List.countP_append, hbefore, List.countP_eq_zero.mpr ?_, Nat.zero_add]
  intro e he
  rw [hnone e he]
  exact Bool.false_ne_true

theorem Warned.unsettled {h : Heap V} (hw : h.Warned) :
    h.unsettled.trace.countP Event.isWarning = 1 := by
  rw [Warned] at hw
  rw [Heap.unsettled]
  split
  · rename_i hstable
    rw [if_pos hstable] at hw
    show List.countP Event.isWarning (.unstable :: h.trace) = 1
    rw [List.countP_cons_of_pos rfl, hw]
  · rename_i hstable
    rwa [if_neg hstable] at hw

end Heap

/-- The command rebuilds a pointer, null or not. -/
def Command.Rebuilds {E : Type} (c : Command E) (s : Session V) : Prop :=
  match c with
  | .rebuild _ o n => ∃ a, o.address? n s.toRegisters = .ok a
  | _ => False

/-- The command on values rebuilds a pointer, null or not. -/
def ValueCommand.Rebuilds (c : ValueCommand) (s : Session Value) : Prop :=
  match c with
  | .common c => c.Rebuilds s
  | _ => False

/-- The flag after a command, and the warning: both change only where a pointer is rebuilt for the
first time. -/
structure Session.Flagged (rebuilds : Prop) (s s' : Session V) : Prop where
  /-- a pointer is rebuilt -/
  rebuilt : rebuilds → Heap.Silent false s.heap.unsettled.trace s'.heap
  /-- none is -/
  silent : ¬ rebuilds → Heap.Silent s.heap.stable s.heap.trace s'.heap

theorem Session.flagged_step [Host V] {E : Type} [Expression E V] [Discreet E V] (c : Command E)
    (s : Session V) : s.Flagged (c.Rebuilds s) (s.step c).2 := by
  have hsilent := Heap.closed_silent s.heap.stable s.heap.trace
  cases c with
  | rebuild name o n =>
    constructor
    · rintro ⟨a, ha⟩
      rw [step_rebuild ha]
      have hstart : Heap.Silent false s.heap.unsettled.trace (s.mapHeap Heap.unsettled).heap :=
        s.heap.stable_unsettled ▸ s.heap.unsettled.silent_self
      have hR := (Heap.closed_silent false s.heap.unsettled.trace).congruence
      have hanchored := Related.perform (hR.anchor a n)
      exact Closed.of_respects (hanchored.bind fun p => Related.made hR name p) hstart
    · intro hnot
      rcases ha : o.address? n s.toRegisters with f | a
      · rw [step_rebuild_of_error ha]
        exact s.heap.silent_self
      · exact (hnot ⟨a, ha⟩).elim
  | configure config => exact ⟨False.elim, fun _ => s.heap.silent_self⟩
  | _ =>
    refine ⟨False.elim, fun _ => hsilent.step ?_ s.heap.silent_self⟩
    trivial

theorem Session.flagged_stepValue (c : ValueCommand) (s : Session Value) :
    s.Flagged (c.Rebuilds s) (s.stepValue c).2 := by
  cases c with
  | common c =>
    rw [stepValue_common]
    exact flagged_step c s
  | _ =>
    refine ⟨False.elim, fun _ => (Heap.closed_silent _ _).stepValue ?_ s.heap.silent_self⟩
    trivial

/-! ### Runs -/

/-- A command of a run rebuilds a pointer. -/
def Session.Rebuilt {C A : Type} (step : C → Session V → Except Failure A × Session V)
    (rebuilds : C → Session V → Prop) : Session V → List C → Prop
  | _, [] => False
  | s, c :: cs => rebuilds c s ∨ Rebuilt step rebuilds (step c s).2 cs

/-- How the flag and the warning tell of the pointers that were rebuilt, where it is known whether
any were. -/
structure Session.KeepsFlag [Host V] {C A : Type}
    (step : C → Session V → Except Failure A × Session V) (rebuilds : C → Session V → Prop)
    (already : Prop) (s : Session V) : Prop where
  /-- the flag is lost exactly if a pointer was rebuilt -/
  flag : s.heap.stable = false ↔ already
  /-- no command sets it again -/
  lost : ∀ c, s.heap.stable = false → (step c s).2.heap.stable = false
  /-- the first command that rebuilds a pointer starts with the warning, and tells no other -/
  warns : ∀ c, rebuilds c s → ¬ already →
    Heap.Silent false (.unstable :: s.heap.trace) (step c s).2.heap
  /-- any other command tells none, and leaves the flag as it is -/
  silent : ∀ c, ¬ (rebuilds c s ∧ ¬ already) →
    Heap.Silent s.heap.stable s.heap.trace (step c s).2.heap
  /-- nor does closing the session -/
  closing : Heap.Silent s.heap.stable s.heap.trace s.close.heap
  /-- so all in all there is one warning if a pointer was rebuilt, and none otherwise -/
  once : s.heap.Warned

namespace Session

variable {C A : Type} {step : C → Session V → Except Failure A × Session V}
  {rebuilds : C → Session V → Prop}

theorem Flagged.stable_eq_false_iff {P : Prop} {s s' : Session V} (hf : s.Flagged P s') :
    s'.heap.stable = false ↔ s.heap.stable = false ∨ P := by
  by_cases hp : P
  · exact ⟨fun _ => .inr hp, fun _ => (hf.rebuilt hp).1⟩
  · rw [(hf.silent hp).1]
    exact ⟨.inl, fun h => h.resolve_right hp⟩

theorem Flagged.warned {P : Prop} {s s' : Session V} (hf : s.Flagged P s') (hs : s.heap.Warned) :
    s'.heap.Warned := by
  by_cases hp : P
  · exact (hf.rebuilt hp).warned hs.unsettled
  · exact (hf.silent hp).warned hs

/-- The flag is lost after a run if it was lost before or a pointer is rebuilt in the run. -/
theorem stable_runBy_eq_false_iff
    (hstep : ∀ c (s : Session V), s.Flagged (rebuilds c s) (step c s).2)
    (cs : List C) (s : Session V) :
    (s.runBy step cs).heap.stable = false ↔ s.heap.stable = false ∨ Rebuilt step rebuilds s cs := by
  induction cs generalizing s with
  | nil => exact (or_iff_left id).symm
  | cons c cs ih =>
    show ((step c s).2.runBy step cs).heap.stable = false ↔ _
    rw [ih, (hstep c s).stable_eq_false_iff, or_assoc]
    rfl

theorem keepsFlag [Host V] (hstep : ∀ c (s : Session V), s.Flagged (rebuilds c s) (step c s).2)
    (system : System) (cs : List C) :
    ((Session.empty system).runBy step cs).KeepsFlag step rebuilds
      (Rebuilt step rebuilds (.empty system) cs) := by
  have hflag := stable_runBy_eq_false_iff hstep cs (.empty system)
  rw [or_iff_right Bool.noConfusion] at hflag
  have hwarned : ((Session.empty system).runBy step cs).heap.Warned :=
    runBy_induction (P := fun s => s.heap.Warned) (fun c _ s hs => (hstep c s).warned hs) rfl
  generalize (Session.empty system).runBy step cs = s at hflag hwarned
  refine ⟨hflag, fun c hlost => ?_, fun c hc hnot => ?_, fun c hc => ?_, ?_, hwarned⟩
  · exact (hstep c s).stable_eq_false_iff.mpr (.inl hlost)
  · have hstable := Bool.eq_true_of_not_eq_false (mt hflag.mp hnot)
    have htrace : s.heap.unsettled.trace = .unstable :: s.heap.trace := by
      rw [Heap.unsettled, if_pos hstable]
      rfl
    exact htrace ▸ (hstep c s).rebuilt hc
  · by_cases hr : rebuilds c s
    · -- the flag was lost before, so nothing is told of it any more
      have hlost := hflag.mpr (not_not.mp fun hnot => hc ⟨hr, hnot⟩)
      have hsame : s.heap.unsettled = s.heap := by
        rw [Heap.unsettled, hlost]
        rfl
      have hrebuilt := (hstep c s).rebuilt hr
      rwa [hsame, ← hlost] at hrebuilt
    · exact (hstep c s).silent hr
  · exact (Heap.closed_silent _ _).close s.heap.silent_self

end Session

/-! ## Rebuilding in all runs -/

/-- A pointer that is rebuilt from the address of a handle is as good as one that is bound to it. -/
def Session.RebuildsLikeBinding [Host V] {E C A : Type}
    (step : C → Session V → Except Failure A × Session V) (common : Command E → C)
    (asks : C → Prop) (s : Session V) : Prop :=
  ∀ name source p, s.handles.lookup source = some p →
    (step (common (.bind name source)) s).1 =
        (step (common (.rebuild name (.handle source) p.size)) s).1 ∧
      (step (common (.bind name source)) s).2.Twins step asks
        (step (common (.rebuild name (.handle source) p.size)) s).2

/-- A pointer that is rebuilt where no block is named is a null pointer like any other. -/
def Session.RebuildsNull [Host V] {E C A : Type}
    (step : C → Session V → Except Failure A × Session V) (common : Command E → C)
    (asks : C → Prop) (s : Session V) : Prop :=
  ∀ name o n a, o.address? n s.toRegisters = .ok a → (∀ b, a ≠ .block b) →
    (step (common (.rebuild name o n)) s).2.handles.lookup name = some .null ∧
      (step (common (.null name)) s).1 = (step (common (.rebuild name o n)) s).1 ∧
      (step (common (.null name)) s).2.Twins step asks (step (common (.rebuild name o n)) s).2

section

variable [Host V] {E : Type} [Expression E V]

theorem Session.twins_step [Discreet E V] {s t : Session V} (h : Related Heap.Parallel s t) :
    s.Twins (step (E := E)) Command.AsksFlag t := by
  refine twins (fun c hc => Heap.congruence_parallel.command (Command.suits_parallel hc)) ?_ h
  intro c hc s
  cases c with
  | stability => rfl
  | _ => exact hc.elim

/-- What a language of commands makes of the commands for any host. -/
theorem Session.rebuildsLikeBinding {C A : Type}
    {step : C → Session V → Except Failure A × Session V} {common : Command E → C} {asks : C → Prop}
    {answer : Except Failure (Answer V) → Except Failure A}
    (hcommon : ∀ s c, step (common c) s = (answer (s.step c).1, (s.step c).2))
    (htwins : ∀ {s t}, Related Heap.Parallel s t → s.Twins step asks t) {s : Session V}
    (hcount : ∀ {source p}, s.handles.lookup source = some p →
      ∀ b n, p = .cells b n → 0 < s.heap.count b) :
    s.RebuildsLikeBinding step common asks := by
  intro name source p hp
  obtain ⟨hanswer, hrelated⟩ := bind_related_rebuild (E := E) name hp (hcount hp)
  rw [hcommon, hcommon]
  exact ⟨congrArg answer hanswer, htwins hrelated⟩

theorem Session.rebuildsNull {C A : Type}
    {step : C → Session V → Except Failure A × Session V} {common : Command E → C} {asks : C → Prop}
    {answer : Except Failure (Answer V) → Except Failure A}
    (hcommon : ∀ s c, step (common c) s = (answer (s.step c).1, (s.step c).2))
    (htwins : ∀ {s t}, Related Heap.Parallel s t → s.Twins step asks t) (s : Session V) :
    s.RebuildsNull step common asks := by
  intro name o n a ha hnone
  obtain ⟨hanswer, hrelated⟩ := null_related_rebuild (E := E) name ha hnone
  rw [hcommon, hcommon]
  refine ⟨?_, congrArg answer hanswer, htwins hrelated⟩
  have hsame : (s.step (.null name : Command E)).2.handles =
      (s.step (.rebuild name o n : Command E)).2.handles := congrArg Registers.handles hrelated.1
  rw [← hsame]
  show (Act.made name .null s).2.handles.lookup name = some .null
  rw [(made_null name s).2, Entries.lookup_put_self]

theorem Session.step_common (s : Session V) (c : Command E) :
    s.step (id c) = (id (s.step c).1, (s.step c).2) := rfl

theorem Session.twins_stepValue {s t : Session Value} (h : Related Heap.Parallel s t) :
    s.Twins stepValue ValueCommand.AsksFlag t := by
  refine twins (fun c hc => Heap.congruence_parallel.valueCommand
    (ValueCommand.suits_parallel hc)) ?_ h
  intro c hc s
  cases c with
  | common c =>
    cases c with
    | stability => rfl
    | _ => exact hc.elim
  | _ => exact hc.elim

end

/-- Rebuilding a pointer is the same as binding it, apart from the flag. In every session that is
reached without setting a count by hand, of values or of any host, a pointer that is rebuilt from
the address of a handle cannot be told from one that is bound, whatever follows. A pointer that is
rebuilt where no block is named is null and touches no count. And in every run the flag tells
whether a pointer was rebuilt, and there is one warning where the first one was. -/
theorem rebuilding_is_binding :
    (∀ {s : Session Value}, Reached Session.stepValue (fun c _ => c.Steady) s →
      s.RebuildsLikeBinding Session.stepValue .common ValueCommand.AsksFlag) ∧
    (∀ s : Session Value, s.RebuildsNull Session.stepValue .common ValueCommand.AsksFlag ∧
      s.stepValue (.common .stability) = (.ok (.common (.truth s.heap.stable)), s)) ∧
    (∀ (system : System) (cs : List ValueCommand),
      (Session.runValue cs (.empty system)).KeepsFlag Session.stepValue ValueCommand.Rebuilds
        (Session.Rebuilt Session.stepValue ValueCommand.Rebuilds (.empty system) cs)) ∧
    (∀ {V E : Type} [Host V] [Faced V] [Expression E V] [Meaning E] [Faithful E V] [Discreet E V]
      {s : Session V}, Reached (Session.step (E := E)) (fun c _ => c.Steady) s →
        s.RebuildsLikeBinding (Session.step (E := E)) id Command.AsksFlag) ∧
    (∀ {V E : Type} [Host V] [Expression E V] [Discreet E V],
      (∀ s : Session V, s.RebuildsNull (Session.step (E := E)) id Command.AsksFlag ∧
        s.step (.stability : Command E) = (.ok (.truth s.heap.stable), s)) ∧
      ∀ (system : System) (cs : List (Command E)),
        (Session.run cs (.empty system)).KeepsFlag (Session.step (E := E)) Command.Rebuilds
          (Session.Rebuilt Session.step Command.Rebuilds (.empty system) cs)) ∧
    ∀ {V : Type} (h : Heap V) (a : Address) (n : Nat), (∀ b, a ≠ .block b) →
      Pointer.rebuild a n h = (.ok .null, h.unsettled) ∧ h.Parallel h.unsettled := by
  refine ⟨?_, fun s => ⟨?_, rfl⟩, fun system cs => ?_, ?_, ?_, ?_⟩
  · intro s hs
    obtain ⟨-, w, hw, he, -⟩ := hs.exact
    exact Session.rebuildsLikeBinding Session.stepValue_common Session.twins_stepValue
      (hw.handle_counted he)
  · exact Session.rebuildsNull Session.stepValue_common Session.twins_stepValue s
  · exact Session.keepsFlag Session.flagged_stepValue system cs
  · intro V E _ _ _ _ _ _ s hs
    obtain ⟨-, w, hw, he, -⟩ := hs.exact_step
    exact Session.rebuildsLikeBinding Session.step_common Session.twins_step (hw.handle_counted he)
  · intro V E _ _ _
    refine ⟨fun s => ⟨?_, rfl⟩,
      fun system cs => Session.keepsFlag Session.flagged_step system cs⟩
    exact Session.rebuildsNull Session.step_common Session.twins_step s
  · intro V h a n hnone
    refine ⟨?_, .unsettled h⟩
    rw [Pointer.rebuild_apply]
    cases a with
    | block b => exact (hnone b rfl).elim
    | _ => rfl

/-- A pointer to two cells is bound once and rebuilt once. Both ways it is answered that there are
two references, and the cells go with the second one that is dropped. And watched numbers are left
alone when a pointer is rebuilt from zero, but the flag is lost, and the warning is told. -/
theorem rebuilt_pair_is_dropped :
    let s := Session.runValue [.common (.allocateValues "a" [.int 5, .int 7])]
      (.empty (.ofMemory 100))
    let bound := s.stepValue (.common (.bind "b" "a"))
    let rebuilt := s.stepValue (.common (.rebuild "b" (.handle "a") 2))
    let drops : List ValueCommand := [.common (.drop "a"), .common (.drop "b")]
    let t := Session.run [.allocate "a" (Tracked.Term.literal 5)] (.empty (.ofMemory 100))
    let null := t.step (.rebuild "n" .zero 3 : Command Tracked.Term)
    bound.1 = rebuilt.1 ∧ bound.2.heap.count 0 = 2 ∧
      bound.2.Twins Session.stepValue ValueCommand.AsksFlag rebuilt.2 ∧
      (rebuilt.2.runValue drops).heap.stats = ⟨0, 0⟩ ∧ bound.2.heap.stable = true ∧
      rebuilt.2.heap.stable = false ∧ t.RebuildsLikeBinding (Session.step (E := Tracked.Term)) id
        Command.AsksFlag ∧ null.2.handles.lookup "n" = some .null ∧ null.2.heap.count 0 = 1 ∧
      Heap.Silent false (.unstable :: t.heap.trace) null.2.heap := by
  intro s bound rebuilt drops t null
  have hs : Reached Session.stepValue (fun c _ => c.Steady) s := (Reached.start _).step trivial
  have ht : Reached (Session.step (E := Tracked.Term)) (fun c _ => c.Steady) t :=
    (Reached.start _).step trivial
  obtain ⟨hanswer, htwins⟩ := rebuilding_is_binding.1 hs "b" "a" (.cells 0 2) (by decide +kernel)
  obtain ⟨hnull, hflag⟩ := rebuilding_is_binding.2.2.2.2.1 (E := Tracked.Term)
  refine ⟨hanswer, by decide +kernel, htwins, by decide +kernel, by decide +kernel,
    by decide +kernel, rebuilding_is_binding.2.2.2.1 ht, ?_, by decide +kernel, ?_⟩
  · exact ((hnull t).1 "n" .zero 3 .zero rfl nofun).1
  · refine (hflag (.ofMemory 100) [.allocate "a" (.literal 5)]).warns _ ⟨.zero, rfl⟩ ?_
    simp [Session.Rebuilt, Command.Rebuilds]

end CountedCells

import CountedCells.Proofs.Chronicle
import CountedCells.Proofs.Conservation
import CountedCells.Proofs.Related

/-!
# Limits: how many cells may be live

A limit can be installed and taken away at any time, also one that is exceeded already. While it is
in force, the live cells never rise above it (`Heap.Limited`): with each event there are no more of
them than before, or they are within the limit. This holds in every run, whatever was done to the
counts, because all that it needs is that only two events change the statistics. A limit that is
installed when it is not exceeded is therefore never exceeded, until another one is installed.

The other way round, where the system gives memory, a request for cells is refused only if they do
not fit. What counts is the sum of two natural numbers, however large they are (`Heap.Answers`).
-/

namespace CountedCells

open Attempt

variable {V : Type}

/-- There may be this many live cells. -/
def Config.Allows (config : Config) (n : Nat) : Prop :=
  config.cellLimit.all fun limit => n ≤ limit.toNat

instance (config : Config) (n : Nat) : Decidable (config.Allows n) :=
  inferInstanceAs (Decidable (_ = true))

theorem Config.allows_some {limit : UInt64} {n : Nat} :
    (Config.mk (some limit)).Allows n ↔ n ≤ limit.toNat := by
  simp [Allows]

theorem Config.Allows.mono {config : Config} {m n : Nat} (hn : config.Allows n) (hle : m ≤ n) :
    config.Allows m := by
  rcases config with ⟨_ | limit⟩
  · rfl
  · exact allows_some.mpr (hle.trans (allows_some.mp hn))

/-- What can be seen by whoever is called when this happens: how much is live. -/
def Event.seen? : Event V → Option Stats
  | .acquired _ _ st | .disowned _ _ st => some st
  | _ => none

namespace Heap

/-! ## Live cells and the limit -/

/-- The statistics are what the events come to. -/
def Replayed (h : Heap V) : Prop := h.stats = Stats.ofTrace h.trace

/-- On the way from one heap to another the live cells never rise above the limit. -/
structure Limited (h g : Heap V) : Prop where
  /-- the same limit is in force -/
  config : g.config = h.config
  /-- what had happened stays on record -/
  since : h.trace <:+ g.trace
  /-- the statistics are what the events come to -/
  replayed : g.Replayed
  /-- with each event there are no more live cells than before, or no more than the limit -/
  rises : ∀ e before, h.trace <:+ before → e :: before <:+ g.trace →
    (Stats.ofTrace (e :: before)).liveCells ≤ (Stats.ofTrace before).liveCells ∨
      h.config.Allows (Stats.ofTrace (e :: before)).liveCells
  /-- whoever is called back because a reference is taken or given back sees the statistics of the
  moment -/
  told : ∀ e st before, e.seen? = some st → h.trace <:+ before → e :: before <:+ g.trace →
    st = Stats.ofTrace before

/-- At every moment since an earlier state no more cells than this are live. -/
structure StaysWithin (limit : Nat) (h g : Heap V) : Prop where
  /-- with each event -/
  moments : ∀ es, h.trace <:+ es → es <:+ g.trace → (Stats.ofTrace es).liveCells ≤ limit
  /-- when a reference to a value is taken or given back -/
  told : ∀ e st before, e.seen? = some st → h.trace <:+ before → e :: before <:+ g.trace →
    st.liveCells ≤ limit
  /-- in the end -/
  now : g.stats.liveCells ≤ limit

namespace Limited

variable {h g g' : Heap V}

theorem refl (hr : h.Replayed) : h.Limited h where
  config := rfl
  since := List.suffix_rfl
  replayed := hr
  rises e before hsince hsuffix := by
    have hlength := (hsuffix.trans hsince).length_le
    simp at hlength
  told e st before _ hsince hsuffix := by
    have hlength := (hsuffix.trans hsince).length_le
    simp at hlength

/-- Nothing happens that is told or that concerns the limit. -/
theorem quiet (hl : h.Limited g) (hconfig : g'.config = g.config) (htrace : g'.trace = g.trace)
    (hstats : g'.stats = g.stats) : h.Limited g' where
  config := hconfig.trans hl.config
  since := htrace ▸ hl.since
  replayed := by rw [Replayed, hstats, htrace, hl.replayed]
  rises := htrace ▸ hl.rises
  told := htrace ▸ hl.told

/-- One more event. -/
theorem cons (hl : h.Limited g) {e : Event V} (hconfig : g'.config = g.config)
    (htrace : g'.trace = e :: g.trace) (hstats : g'.stats = g.stats.after e)
    (hrises : g'.stats.liveCells ≤ g.stats.liveCells ∨ h.config.Allows g'.stats.liveCells)
    (htold : ∀ st, e.seen? = some st → st = g.stats) : h.Limited g' := by
  have hafter : Stats.ofTrace (e :: g.trace) = g'.stats := by
    rw [hstats, hl.replayed]
    rfl
  refine ⟨hconfig.trans hl.config, ?_, ?_, ?_, ?_⟩
  · rw [htrace]
    exact hl.since.trans (List.suffix_cons e g.trace)
  · rw [Replayed, htrace, hafter]
  · intro e' before hsince hsuffix
    rw [htrace] at hsuffix
    rcases List.suffix_cons_iff.mp hsuffix with heq | hsuffix
    · cases heq
      rwa [hafter, ← hl.replayed]
    · exact hl.rises e' before hsince hsuffix
  · intro e' st before hseen hsince hsuffix
    rw [htrace] at hsuffix
    rcases List.suffix_cons_iff.mp hsuffix with heq | hsuffix
    · cases heq
      rw [← hl.replayed]
      exact htold st hseen
    · exact hl.told e' st before hseen hsince hsuffix

theorem unsettled (hl : h.Limited g) : h.Limited g.unsettled := by
  rw [Heap.unsettled]
  split
  · exact hl.cons rfl rfl rfl (.inl (Nat.le_refl _)) nofun
  · exact hl

/-- A limit that is not exceeded stays so. -/
theorem allows (hl : h.Limited g) (hr : h.Replayed)
    (hallows : h.config.Allows h.stats.liveCells) {es : List (Event V)} (hsince : h.trace <:+ es)
    (hes : es <:+ g.trace) : h.config.Allows (Stats.ofTrace es).liveCells := by
  rw [hr] at hallows
  induction es with
  | nil => rwa [List.suffix_nil.mp hsince] at hallows
  | cons e es ih =>
    rcases List.suffix_cons_iff.mp hsince with heq | hsince
    · rwa [← heq]
    · have hbefore := ih hsince ((List.suffix_cons e es).trans hes)
      rcases hl.rises e es hsince hes with hle | hallows
      · exact hbefore.mono hle
      · exact hallows

/-- A limit that is not exceeded when it is installed is not exceeded later. -/
theorem staysWithin (hl : h.Limited g) (hr : h.Replayed) {limit : UInt64}
    (hlimit : h.config = ⟨some limit⟩) (hlive : h.stats.liveCells ≤ limit.toNat) :
    StaysWithin limit.toNat h g := by
  have hmoments : ∀ es, h.trace <:+ es → es <:+ g.trace →
      (Stats.ofTrace es).liveCells ≤ limit.toNat := by
    intro es hsince hes
    have hallows := hl.allows hr (by rwa [hlimit, Config.allows_some]) hsince hes
    rwa [hlimit, Config.allows_some] at hallows
  refine ⟨hmoments, fun e st before hseen hsince hsuffix => ?_, ?_⟩
  · rw [hl.told e st before hseen hsince hsuffix]
    exact hmoments before hsince ((List.suffix_cons _ before).trans hsuffix)
  · rw [hl.replayed]
    exact hmoments g.trace hl.since List.suffix_rfl

end Limited

/-- Cells that are given out fit into the limit. -/
theorem allows_of_refusal {h : Heap V} {n : Nat} (hn : h.refusal n = none) :
    h.config.Allows (h.stats.liveCells + n) := by
  have hpos := pos_of_refusal hn
  rw [refusal_eq, shortage?, if_neg (Nat.ne_of_gt hpos)] at hn
  by_cases hroom : h.HasRoom n
  · exact hroom.1
  · rw [if_neg hroom] at hn
    cases hn

/-- Whatever changes a heap keeps to the limit. -/
theorem closed_limited (h : Heap V) : Closed h.Limited where
  addBlock _ _ hl hn := by
    have hallows := allows_of_refusal hn
    rw [hl.config] at hallows
    exact hl.cons rfl rfl rfl (.inr hallows) nofun
  destroy _ _ _ hl := hl.cons rfl rfl rfl (.inl (Nat.sub_le _ _)) nofun
  mapBlock _ _ _ hl := hl.quiet rfl rfl rfl
  payloads _ _ hl := hl.quiet rfl rfl rfl
  log g e hl he := by
    have hstats : g.stats = g.stats.after e := by
      cases e with
      | allocated _ _ | destroyed _ _ => exact he.elim
      | _ => rfl
    refine hl.cons rfl rfl hstats (.inl (Nat.le_refl _)) fun st hseen => ?_
    cases e with
    | acquired _ _ st' | disowned _ _ st' =>
      cases hseen
      exact he
    | _ => cases hseen
  stray _ _ hl := hl.quiet rfl rfl rfl

/-- The statistics are what the events come to, whatever was done to the counts. -/
theorem closed_replayed : Closed (Heap.Replayed (V := V)) where
  addBlock h n hr _ := by
    show (⟨h.stats.liveCells + n, h.stats.liveBlocks + 1⟩ : Stats) = _
    rw [hr]
    rfl
  destroy h b n hr := by
    show (⟨h.stats.liveCells - n, h.stats.liveBlocks - 1⟩ : Stats) = _
    rw [hr]
    rfl
  mapBlock _ _ _ hr := hr
  payloads _ _ hr := hr
  log h e hr he := by
    cases e with
    | allocated _ _ | destroyed _ _ => exact he.elim
    | _ => exact hr
  stray _ _ hr := hr

end Heap

/-! ## Requests -/

section

variable [Host V]

/-- How many cells an operation asks for. -/
def Operation.request? : Operation V → Option Nat
  | allocate _ | set .null _ => some 1
  | allocateCollection filling => some filling.size
  | _ => none

/-- How a heap answers requests for `n` cells, by hand or by an operation. What does not fit into
the limit is refused, and nothing happens then; what fits is given out, provided that the system
does not refuse it. -/
structure Heap.Answers (h : Heap V) (n : Nat) : Prop where
  /-- a request by hand that does not fit -/
  refuses : ¬ h.config.Allows (h.stats.liveCells + n) →
    Heap.allocate n h = (.error (.error (.allocation n)), h)
  /-- a request by hand that fits -/
  gives : h.config.Allows (h.stats.liveCells + n) → h.system.refuses h.stats n = false →
    Heap.allocate n h = (.ok h.blocks.length, h.addBlock n)
  /-- an operation that asks for what does not fit -/
  reports : ∀ o : Operation V, o.request? = some n → ¬ h.config.Allows (h.stats.liveCells + n) →
    o.run h = ⟨some (.error (.allocation n)), o.pointers, h⟩
  /-- an operation that asks for what fits reports no error -/
  admits : ∀ o : Operation V, o.request? = some n → h.config.Allows (h.stats.liveCells + n) →
    h.system.refuses h.stats n = false → ∀ e, (o.run h).fault? ≠ some (.error e)
  /-- it succeeds with values that can be copied, and then there are so many more live cells -/
  serves : ∀ o : Operation V, o.request? = some n → h.config.Allows (h.stats.liveCells + n) →
    h.system.refuses h.stats n = false → (∀ v ∈ o.values, h.Counted v) → h.Uncrowded o.values →
    (o.run h).fault? = none ∧ (o.run h).heap.stats = (h.addBlock n).stats

namespace Operation

variable {h : Heap V} {n : Nat} {o : Operation V}

omit [Host V] in
theorem cause?_of_request (ho : o.request? = some n) : o.cause? h = h.shortage? n := by
  cases o with
  | allocate v =>
    cases ho
    rfl
  | allocateCollection filling =>
    cases ho
    rfl
  | set p v =>
    cases p with
    | null =>
      cases ho
      rfl
    | cells b m => cases ho
  | _ => cases ho

/-- Whoever asks for cells does not look into blocks that are there. -/
theorem reports_of_request (ho : o.request? = some n) :
    (o.run h).Reports (h.shortage? n) o.pointers h := by
  rw [← cause?_of_request ho]
  refine o.reports fun b m hmem => ?_
  cases o with
  | allocate v => cases hmem
  | allocateCollection filling => cases hmem
  | set p v =>
    cases p with
    | null =>
      obtain hnull := List.mem_singleton.mp hmem
      cases hnull
    | cells c k => cases ho
  | _ => cases ho

/-- A request for which there is room is served. -/
theorem serves_request (ho : o.request? = some n) (hn : h.shortage? n = none)
    (hvs : ∀ v ∈ o.values, h.Counted v) (hroom : h.Uncrowded o.values) :
    (o.run h).fault? = none ∧ (o.run h).heap.stats = (h.addBlock n).stats := by
  cases o with
  | allocate v =>
    cases ho
    obtain ⟨p, g, hrun, -, hstats, -⟩ := hroom.exists_ok
      (Pointer.ends_allocate_of_counted hn (hvs v (List.mem_singleton_self v)))
    simp only [run, hrun]
    exact ⟨rfl, hstats⟩
  | allocateCollection filling =>
    cases ho
    obtain ⟨p, g, hrun, -, hstats, -⟩ :=
      hroom.exists_ok (Pointer.ends_allocateCollection_of_counted hn hvs)
    simp only [run, hrun]
    exact ⟨rfl, hstats⟩
  | set p v =>
    cases p with
    | null =>
      cases ho
      obtain ⟨-, hends⟩ := Pointer.set_null_of_counted hn (hvs v (List.mem_singleton_self v))
      obtain ⟨u, g, hrun, hstats, -⟩ := hroom.exists_ok hends
      obtain ⟨hresult, rfl⟩ := Prod.mk.inj hrun
      simp only [run, hresult]
      exact ⟨rfl, hstats⟩
    | cells b m => cases ho
  | _ => cases ho

end Operation

/-- Every heap answers requests as it should. -/
theorem Heap.answers (h : Heap V) {n : Nat} (hn : 1 ≤ n) : h.Answers n := by
  have hpos : n ≠ 0 := Nat.ne_of_gt hn
  have hrefused (hnot : ¬ h.config.Allows (h.stats.liveCells + n)) :
      h.shortage? n = some (.allocation n) := by
    rw [shortage?, if_neg hpos, if_neg fun hroom => hnot hroom.1]
  have hgiven (hallows : h.config.Allows (h.stats.liveCells + n))
      (hsystem : h.system.refuses h.stats n = false) :
      h.shortage? n = none := by
    rw [shortage?, if_neg hpos, if_pos ⟨hallows, hsystem⟩]
  constructor
  · intro hnot
    rw [allocate_of_shortage (hrefused hnot)]
  · intro hallows hsystem
    rw [allocate_of_room (hgiven hallows hsystem)]
  · intro o ho hnot
    exact (Operation.reports_of_request ho).reported _ (hrefused hnot)
  · intro o ho hallows hsystem e he
    have hcause := (Operation.reports_of_request ho).only e he
    rw [hgiven hallows hsystem] at hcause
    cases hcause
  · intro o ho hallows hsystem hvs hroom
    exact Operation.serves_request ho (hgiven hallows hsystem) hvs hroom

end

/-- On an intact heap with arguments that are there, an operation that asks for cells succeeds if
they fit, provided that the system gives them and counts can be raised for the values. -/
theorem Operation.succeeds_iff [Host V] {h : Heap V} {o : Operation V} {n : Nat} (hi : h.Intact)
    (ho : o.Given h) (hrequest : o.request? = some n) (hn : 1 ≤ n)
    (hsystem : h.system.refuses h.stats n = false) (hroom : h.Uncrowded o.values) :
    (o.run h).fault? = none ↔ h.config.Allows (h.stats.liveCells + n) := by
  have hanswers := h.answers hn
  constructor
  · intro hnone
    by_contra hnot
    rw [hanswers.reports o hrequest hnot] at hnone
    cases hnone
  · intro hallows
    exact (hanswers.serves o hrequest hallows hsystem (fun v hv => hi.counted (ho.values v hv))
      hroom).1

/-! ## Commands -/

/-- The command installs settings. -/
def Command.Installs {E : Type} : Command E → Prop
  | .configure _ => True
  | _ => False

/-- The command on values installs settings. -/
def ValueCommand.Installs : ValueCommand → Prop
  | .common c => c.Installs
  | _ => False

theorem Command.spares_limited {E : Type} {c : Command E} (hc : ¬ c.Installs) (h : Heap V) :
    c.Spares h.Limited := by
  cases c with
  | rebuild name o n => exact fun g hl => hl.unsettled
  | configure config => exact (hc trivial).elim
  | _ => trivial

theorem ValueCommand.spares_limited {c : ValueCommand} (hc : ¬ c.Installs) (h : Heap Value) :
    c.Spares h.Limited := by
  cases c with
  | common c => exact Command.spares_limited hc h
  | _ => trivial

theorem Command.spares_replayed {E : Type} (c : Command E) :
    c.Spares (Heap.Replayed (V := V)) := by
  cases c with
  | rebuild name o n =>
    intro h hr
    rw [Heap.unsettled]
    split <;> exact hr
  | configure config => exact fun _ hr => hr
  | _ => trivial

theorem ValueCommand.spares_replayed (c : ValueCommand) :
    c.Spares Heap.Replayed := by
  cases c with
  | common c => exact c.spares_replayed
  | _ => trivial

/-- A language of commands, some of which install settings, keeps to the limits from a session
on. -/
structure Session.KeepsLimits {C A : Type} [Host V]
    (step : C → Session V → Except Failure A × Session V) (install : Config → C)
    (installs : C → Prop) (s : Session V) : Prop where
  /-- with a command that installs no settings, the live cells never rise above the limit -/
  commands : ∀ c, ¬ installs c → s.heap.Limited (step c s).2.heap
  /-- nor do they when the session is closed -/
  closing : s.heap.Limited s.close.heap
  /-- settings are installed at any time, and nothing else happens then -/
  installing : ∀ config, (step (install config) s).2 = s.mapHeap ({ · with config })
  /-- a limit that is installed when it is not exceeded is never exceeded until others are
  installed, not even when the session is closed then -/
  lasting : ∀ limit cs, s.heap.stats.liveCells ≤ limit.toNat → (∀ c ∈ cs, ¬ installs c) →
    Heap.StaysWithin limit.toNat s.heap
      (Session.runBy step cs (step (install ⟨some limit⟩) s).2).close.heap

theorem Session.keepsLimits {C A : Type} [Host V]
    {step : C → Session V → Except Failure A × Session V} {install : Config → C}
    {installs : C → Prop} {s : Session V} (hr : s.heap.Replayed)
    (hinstall : ∀ config, (step (install config) s).2 = s.mapHeap ({ · with config }))
    (hstep : ∀ c, ¬ installs c → ∀ (h : Heap V) (t : Session V), h.Limited t.heap →
      h.Limited (step c t).2.heap) :
    s.KeepsLimits step install installs where
  commands c hc := hstep c hc s.heap s (.refl hr)
  closing := (Heap.closed_limited s.heap).close (.refl hr)
  installing := hinstall
  lasting limit cs hlive hcs := by
    rw [hinstall]
    -- the heap with the limit is where the limit starts to be in force
    let h : Heap V := { s.heap with config := ⟨some limit⟩ }
    have hstart : h.Limited (s.mapHeap ({ · with config := ⟨some limit⟩ })).heap := .refl hr
    have hrun := Session.runBy_induction (P := fun t => h.Limited t.heap)
      (fun c hc t => hstep c (hcs c hc) h t) hstart
    have hclosed := (Heap.closed_limited h).close hrun
    obtain ⟨hmoments, htold, hnow⟩ := hclosed.staysWithin hr rfl hlive
    exact ⟨hmoments, htold, hnow⟩

/-- Operations with arguments that are there get the cells that they ask for exactly if these fit
into the limit, provided that the system does not refuse and that no count is so high that it cannot
be raised once for each of the values that point to its block. -/
def Heap.Serves [Host V] (h : Heap V) : Prop :=
  ∀ (o : Operation V) (n : Nat), o.Given h → o.request? = some n → 1 ≤ n →
    h.system.refuses h.stats n = false → h.Uncrowded o.values →
    ((o.run h).fault? = none ↔ h.config.Allows (h.stats.liveCells + n))

/-- The limit is enforced exactly, on every system. In every run, of values or of any host, the live
cells never rise above the limit that is in force, and every heap refuses the cells that do not fit
and gives out those that do, unless its system refuses them. In sessions that are reached without
setting a count by hand, nothing else can go wrong with a request. -/
theorem limits_enforced :
    (∀ (system : System) (before : List ValueCommand),
      (Session.runValue before (.empty system)).KeepsLimits Session.stepValue
        (fun config => .common (.configure config)) ValueCommand.Installs) ∧
    (∀ {V E : Type} [Host V] [Expression E V] [Discreet E V] (system : System)
      (before : List (Command E)),
      (Session.run before (.empty system)).KeepsLimits (Session.step (E := E)) .configure
        Command.Installs) ∧
    (∀ {V : Type} [Host V] (h : Heap V) (n : Nat), 1 ≤ n → h.Answers n) ∧
    (∀ {s : Session Value}, Reached Session.stepValue (fun c _ => c.Steady) s → s.heap.Serves) ∧
    ∀ {V E : Type} [Host V] [Faced V] [Expression E V] [Meaning E] [Faithful E V] {s : Session V},
      Reached (Session.step (E := E)) (fun c _ => c.Steady) s → s.heap.Serves := by
  refine ⟨?_, ?_, fun h n hn => h.answers hn, ?_, ?_⟩
  · intro system before
    have hr : (Session.runValue before (.empty system)).heap.Replayed :=
      Session.runBy_induction (P := fun s => s.heap.Replayed)
        (fun c _ _ hr => Heap.closed_replayed.stepValue c.spares_replayed hr) rfl
    refine Session.keepsLimits hr (fun _ => rfl) fun c hc h t hl => ?_
    exact (Heap.closed_limited h).stepValue (ValueCommand.spares_limited hc h) hl
  · intro V E _ _ _ system before
    have hr : (Session.run before (.empty system) : Session V).heap.Replayed :=
      Session.runBy_induction (P := fun s => s.heap.Replayed)
        (fun (c : Command E) _ _ hr => Heap.closed_replayed.step c.spares_replayed hr) rfl
    refine Session.keepsLimits hr (fun _ => rfl) fun c hc h t hl => ?_
    exact (Heap.closed_limited h).step (Command.spares_limited hc h) hl
  · intro s hs o n ho hrequest hn hsystem hroom
    obtain ⟨-, w, hw, he, -⟩ := hs.exact
    exact Operation.succeeds_iff (he.intact hw.sound) ho hrequest hn hsystem hroom
  · intro V E _ _ _ _ _ s hs o n ho hrequest hn hsystem hroom
    obtain ⟨-, w, hw, he, -⟩ := hs.exact_step
    exact Operation.succeeds_iff (he.intact hw.sound) ho hrequest hn hsystem hroom

/-- A limit below the live cells lets nothing be made, not even where the sum is no 64-bit count any
more, and a block can go. When it has gone, there is room again for three cells, and not for four.
And watched numbers stay within a limit of four cells, though three and two of them are asked
for. -/
theorem limit_below_live_cells :
    let s := Session.runValue [.common (.allocateCount "a" 5), .common (.allocate "b" (.int 7)),
      .common (.configure ⟨some 4⟩)] (.empty (.ofMemory 100))
    let t := (s.stepValue (.common (.drop "a"))).2
    let u := Session.run [.configure ⟨some 4⟩, .allocateCount "a" 3,
      .allocateCount "b" 2, .set "a" (Tracked.Term.literal 5)] (.empty (.ofMemory 100))
    let n := 18446744073709551615
    s.heap.stats.liveCells = 6 ∧ t.heap.stats.liveCells = 1 ∧ s.heap.Limited t.heap ∧
      Heap.allocate n s.heap = (.error (.error (.allocation n)), s.heap) ∧
      Heap.allocate 4 t.heap = (.error (.error (.allocation 4)), t.heap) ∧
      (Heap.allocate 3 t.heap).1 = .ok 2 ∧
      ((Operation.allocateCollection (.count 3)).run t.heap).fault? = none ∧
      u.heap.stats.liveCells = 3 ∧
      Heap.StaysWithin 4 (.empty (.ofMemory 100)) u.close.heap := by
  intro s t u n
  have hkeeps := limits_enforced.1 (.ofMemory 100) [.common (.allocateCount "a" 5),
    .common (.allocate "b" (.int 7)), .common (.configure ⟨some 4⟩)]
  have hanswers (h : Heap Value) {k : Nat} (hk : 1 ≤ k) : h.Answers k :=
    limits_enforced.2.2.1 h k hk
  have hsteady : Reached Session.stepValue (fun c _ => c.Steady) t :=
    ((((Reached.start _).step trivial).step trivial).step trivial).step trivial
  have hserves := limits_enforced.2.2.2.1 hsteady
  refine ⟨by decide +kernel, by decide +kernel, hkeeps.commands _ id, ?_, ?_, ?_, ?_,
    by decide +kernel, ?_⟩
  · exact (hanswers s.heap (by decide)).refuses (by decide +kernel)
  · exact (hanswers t.heap (by decide)).refuses (by decide +kernel)
  · rw [(hanswers t.heap (by decide)).gives (by decide +kernel) (by decide +kernel)]
    decide +kernel
  · -- the default value points nowhere
    have hnone (v : Value) (hv : v ∈ (Operation.allocateCollection (.count 3)).values) :
        Host.ref v = none := by
      rw [(List.mem_replicate.mp hv).2, Host.ref_default]
    refine (hserves _ 3 ⟨List.forall_mem_nil _, fun v hv r hr => ?_⟩ rfl (by decide)
      (by decide +kernel) fun b hb => ?_).mpr (by decide +kernel)
    · rw [hnone v hv] at hr
      cases hr
    · obtain ⟨v, hv, hany⟩ := List.countP_pos_iff.mp hb
      rw [hnone v hv] at hany
      cases hany
  · refine (limits_enforced.2.1 (.ofMemory 100) ([] : List (Command Tracked.Term))).lasting 4 _
      (Nat.zero_le _) ?_
    simp [Command.Installs]

end CountedCells

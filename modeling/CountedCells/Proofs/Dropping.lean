import CountedCells.Proofs.Confluence

/-!
# Dropping: owners can be given up in any order

The owners that a session names can be given up one by one: handles, variables, and the references
of raw blocks. What is left of the registers does not depend on the order, since each command takes
out one owner and leaves the others alone (`Registers.without`). And the heap that is left is the
same by confluence, so the same blocks are destroyed, each reported once
(`Reached.dropping_commutes`).

Within a cascade, the parts of a payload are taken in the order in which they are listed. By
confluence again, what is left would be the same in any other order (`Reached.indifferent`).
-/

namespace CountedCells

open Attempt Relation

/-! ## One entry -/

namespace Entries

variable {κ α : Type} [BEq κ]

/-- The entries with the one under `k` changed, or taken out. -/
def alter (k : κ) (f : α → Option α) : List (κ × α) → List (κ × α)
  | [] => []
  | (k', a) :: rest =>
    if k' == k then (f a).elim rest fun b => (k', b) :: rest else (k', a) :: alter k f rest

theorem remove_eq_alter (k : κ) (entries : List (κ × α)) :
    remove k entries = alter k (fun _ => none) entries := by
  induction entries with
  | nil => rfl
  | cons e rest ih =>
    obtain ⟨k', a⟩ := e
    rw [remove, alter, ih]
    rfl

variable [LawfulBEq κ]

/-- What a change does depends on the entry that is there. -/
theorem alter_congr {k : κ} {f g : α → Option α} {entries : List (κ × α)}
    (h : ∀ a, entries.lookup k = some a → f a = g a) : alter k f entries = alter k g entries := by
  induction entries with
  | nil => rfl
  | cons e rest ih =>
    obtain ⟨k', a⟩ := e
    by_cases hk : k' = k
    · subst hk
      have hfg : f a = g a := h a (by rw [List.lookup_cons, beq_self_eq_true])
      rw [alter, alter, hfg, if_pos (beq_self_eq_true k'), if_pos (beq_self_eq_true k')]
    · have hkk : (k' == k) = false := beq_false_of_ne hk
      have hkk' : (k == k') = false := beq_false_of_ne (Ne.symm hk)
      have hrest : alter k f rest = alter k g rest :=
        ih fun a ha => h a (by rw [List.lookup_cons, hkk', ha])
      rw [alter, alter, if_neg (ne_true_of_eq_false hkk), if_neg (ne_true_of_eq_false hkk), hrest]

theorem alter_of_lookup_eq_none {k : κ} {entries : List (κ × α)} (h : entries.lookup k = none)
    (f : α → Option α) : alter k f entries = entries := by
  induction entries with
  | nil => rfl
  | cons e rest ih =>
    obtain ⟨k', a⟩ := e
    have hk : k' ≠ k := by
      rintro rfl
      rw [List.lookup_cons, beq_self_eq_true] at h
      cases h
    have hkk : (k' == k) = false := beq_false_of_ne hk
    have hkk' : (k == k') = false := beq_false_of_ne (Ne.symm hk)
    rw [List.lookup_cons, hkk'] at h
    rw [alter, hkk, ih h]
    rfl

theorem remove_of_lookup_eq_none {k : κ} {entries : List (κ × α)}
    (h : entries.lookup k = none) : remove k entries = entries := by
  rw [remove_eq_alter, alter_of_lookup_eq_none h]

theorem put_eq_alter {k : κ} {a b : α} {entries : List (κ × α)} (h : entries.lookup k = some a) :
    put k b entries = alter k (fun _ => some b) entries := by
  induction entries with
  | nil => cases h
  | cons e rest ih =>
    obtain ⟨k', a'⟩ := e
    by_cases hk : k' = k
    · rw [put, alter, if_pos (beq_iff_eq.mpr hk), if_pos (beq_iff_eq.mpr hk)]
      rfl
    · have hkk : (k' == k) = false := beq_false_of_ne hk
      have hkk' : (k == k') = false := beq_false_of_ne (Ne.symm hk)
      rw [List.lookup_cons, hkk'] at h
      rw [put, alter, hkk, ih h]
      rfl

/-- Changes of different entries can be made in any order. -/
theorem alter_comm {k l : κ} (hkl : k ≠ l) (f g : α → Option α) (entries : List (κ × α)) :
    alter k f (alter l g entries) = alter l g (alter k f entries) := by
  induction entries with
  | nil => rfl
  | cons e rest ih =>
    obtain ⟨k', a⟩ := e
    by_cases hk : k' = k
    · subst hk
      have hl : (k' == l) = false := beq_false_of_ne hkl
      have hself : (k' == k') = true := beq_self_eq_true k'
      rcases hfa : f a with - | b <;> simp [alter, hl, hfa]
    · have hkk : (k' == k) = false := beq_false_of_ne hk
      by_cases hl : k' = l
      · subst hl
        rcases hga : g a with - | b <;> simp [alter, hkk, hga]
      · have hll : (k' == l) = false := beq_false_of_ne hl
        simp [alter, hkk, hll, ih]

end Entries

/-! ## Owners by name -/

/-- An owner that a session names. -/
inductive Named where
  /-- the pointer of a handle -/
  | handle (name : String)
  /-- the value of a variable -/
  | value (name : String)
  /-- one reference of a raw block -/
  | raw (name : String)
  deriving DecidableEq

/-- The raw block with one reference less, if one is left. -/
def RawBlock.less (u : RawBlock) : Option RawBlock :=
  if u.owned ≤ 1 then none else some { u with owned := u.owned - 1 }

namespace Registers

variable {V : Type}

/-- The registers without one owner, if there is one of this name. -/
def without (r : Registers V) : Named → Registers V
  | .handle name => { r with handles := Entries.remove name r.handles }
  | .value name => { r with values := Entries.remove name r.values }
  | .raw name => { r with raws := Entries.alter name RawBlock.less r.raws }

theorem released_eq {r : Registers V} {name : String} {u : RawBlock}
    (hu : r.raws.lookup name = some u) : r.released name u = r.without (.raw name) := by
  have hless : ∀ f : RawBlock → Option RawBlock, f u = u.less →
      Entries.alter name f r.raws = Entries.alter name RawBlock.less r.raws := by
    intro f hf
    refine Entries.alter_congr fun u' hu' => ?_
    rw [hu] at hu'
    cases hu'
    exact hf
  rw [released, without]
  by_cases hone : u.owned ≤ 1
  · rw [if_pos hone, Entries.remove_eq_alter, hless _ (by rw [RawBlock.less, if_pos hone])]
  · rw [if_neg hone, Entries.put_eq_alter hu, hless _ (by rw [RawBlock.less, if_neg hone])]

/-- Owners go in any order. -/
instance : RightCommutative (without (V := V)) where
  right_comm r o o' := by
    have halter {α : Type} (k l : String) (f : α → Option α) (entries : List (String × α)) :
        Entries.alter k f (Entries.alter l f entries) =
          Entries.alter l f (Entries.alter k f entries) := by
      by_cases hkl : k = l
      · rw [hkl]
      · exact Entries.alter_comm hkl f f entries
    cases o <;> cases o' <;> simp only [without, Entries.remove_eq_alter] <;> rw [halter]

end Registers

/-! ## What commands give up -/

/-- The owner that a command gives up. -/
def Command.owner? {E : Type} : Command E → Option Named
  | .drop h => some (.handle h)
  | .disown x | .forget x => some (.value x)
  | .rawRelease u => some (.raw u)
  | _ => none

/-- The owner that a command gives up. -/
def ValueCommand.owner? : ValueCommand → Option Named
  | .common c => c.owner?
  | _ => none

theorem ValueCommand.GivesUp.exists_owner {c : ValueCommand} (hc : c.GivesUp) :
    ∃ o, c.owner? = some o := by
  cases c with
  | common c =>
    cases c with
    | drop name => exact ⟨.handle name, rfl⟩
    | disown name => exact ⟨.value name, rfl⟩
    | forget name => exact ⟨.value name, rfl⟩
    | rawRelease name => exact ⟨.raw name, rfl⟩
    | _ => exact hc.elim
  | _ => exact hc.elim

/-- The owners that commands give up, in order. -/
def ValueCommand.owners (cs : List ValueCommand) : List Named := cs.filterMap owner?

namespace Session

variable {V : Type} [Host V]

omit [Host V] in
theorem toRegisters_takeVariable (s : Session V) (name : String) (last : V → Heap V → Heap V) :
    ((do
      let v ← Act.takeVariable name
      Act.updateHeap (last v)
      pure Answer.done : Act V (Answer V)) s).2.toRegisters = s.without (.value name) := by
  have htake := takeVariable_apply s name
  rcases hv : s.values.lookup name with - | v
  · rw [hv, Option.elim_none] at htake
    rw [bind_of_error htake, Registers.without, Entries.remove_of_lookup_eq_none hv]
  · rw [hv, Option.elim_some] at htake
    rw [bind_of_ok htake]
    rfl

/-- A command that gives up an owner takes it out of the registers, provided that raw blocks have
their counts. -/
theorem toRegisters_step {E : Type} [Expression E V] {s : Session V}
    (hraws : ∀ name u, s.raws.lookup name = some u → 0 < s.heap.count u.block) {c : Command E}
    {o : Named} (ho : c.owner? = some o) : (s.step c).2.toRegisters = s.without o := by
  cases c with
  | drop name =>
    cases ho
    rw [step_drop]
    rcases hp : s.handles.lookup name with - | p
    · rw [Option.elim_none, Registers.without, Entries.remove_of_lookup_eq_none hp]
    · rfl
  | disown name =>
    cases ho
    exact toRegisters_takeVariable s name fun v h => h.disown .caller v
  | forget name =>
    cases ho
    exact toRegisters_takeVariable s name fun v h => h.drop v
  | rawRelease name =>
    cases ho
    rw [step_rawRelease]
    rcases hu : s.raws.lookup name with - | u
    · rw [Option.elim_none, Registers.without, Entries.alter_of_lookup_eq_none hu]
    · have hne : (s.heap.release u.block u.size).1 ≠ .expired :=
        Heap.release_ne_expired (hraws name u hu) u.size
      rw [Option.elim_some, if_neg hne]
      exact Registers.released_eq hu
  | _ => cases ho

end Session

/-! ## Runs -/

theorem Heap.eventsSince_eq {V : Type} {h h' : Heap V} {es : List (Event V)}
    (htrace : h'.trace = es.reverse ++ h.trace) : h.eventsSince h' = es := by
  rw [eventsSince, htrace, List.length_append, Nat.add_sub_cancel, List.take_left,
    List.reverse_reverse]

namespace Session.InOrder

variable {s : Session Value} {w : Written Value}

/-- Commands that give up owners take them out of the registers, and do nothing else to them. -/
theorem toRegisters_runValue {cs : List ValueCommand} (hs : s.InOrder w)
    (he : (s.ledger w).Exact) (hcs : ∀ c ∈ cs, c.GivesUp) :
    (s.runValue cs).toRegisters =
      (ValueCommand.owners cs).foldl Registers.without s.toRegisters := by
  induction cs generalizing s with
  | nil => rfl
  | cons c cs ih =>
    have hc := hcs c List.mem_cons_self
    have hstep := hs.givesUp_stepValue hc
    have hs' := hs.of_moves hstep.yields.moves hstep.proper
    have he' : ((s.stepValue c).2.ledger w).Exact :=
      Moves.tally countRule_exactly hstep.yields.moves hs.sound he
    have hrest := ih hs' he' fun c' hc' => hcs c' (List.mem_cons_of_mem c hc')
    obtain ⟨o, ho⟩ := hc.exists_owner
    have hfirst : (s.stepValue c).2.toRegisters = s.without o := by
      cases c with
      | common c =>
        rw [stepValue_common]
        exact toRegisters_step (fun _ _ hu => hs.count_raw_pos he hu) ho
      | _ => cases ho
    have howners : ValueCommand.owners (c :: cs) = o :: ValueCommand.owners cs :=
      List.filterMap_cons_some ho
    rw [runValue, runBy_cons, hrest, hfirst, howners, List.foldl_cons]

/-- When commands give up owners, blocks go, and each is reported once. -/
theorem loses_runValue {cs : List ValueCommand} (hs : s.InOrder w) (he : (s.ledger w).Exact)
    (hcs : ∀ c ∈ cs, c.GivesUp) :
    ∃ bs, s.heap.Loses bs (s.runValue cs).heap ∧
      Event.losses (s.heap.eventsSince (s.runValue cs).heap) =
        bs.map fun b => (s.heap.sizeAt b, b) := by
  have hgives : ReflTransGen Heap.Gives s.heap (s.runValue cs).heap :=
    (hs.yields_runValue hcs).gives hs.sound he
  obtain ⟨es, bs, htrace, hl, hlosses⟩ := Heap.loses_of_gives hgives
  refine ⟨bs, hl, ?_⟩
  rw [Heap.eventsSince_eq htrace, hlosses]

end Session.InOrder

/-- Owners can be dropped in any order. Whatever owners are given up in a session that is reached
without setting a count by hand, in any two orders: the same owners are left, and the heap is the
same but for the trace, with every block, count, content and the statistics. The same blocks are
destroyed, each of them reported once. -/
theorem Reached.dropping_commutes {s : Session Value}
    (hs : Reached Session.stepValue (fun c _ => c.Steady) s)
    {cs cs' : List ValueCommand} (hcs : ∀ c ∈ cs, c.GivesUp) (hcs' : ∀ c ∈ cs', c.GivesUp)
    (hperm : (ValueCommand.owners cs).Perm (ValueCommand.owners cs')) :
    (s.runValue cs).toRegisters =
        (ValueCommand.owners cs).foldl Registers.without s.toRegisters ∧
      (s.runValue cs').toRegisters = (s.runValue cs).toRegisters ∧
      (s.runValue cs').heap.withoutTrace = (s.runValue cs).heap.withoutTrace ∧
      ∃ bs bs' : List BlockId, bs.Nodup ∧ bs'.Perm bs ∧
        (∀ b, b ∈ bs ↔ s.heap.block? b ≠ none ∧ (s.runValue cs).heap.block? b = none) ∧
        Event.losses (s.heap.eventsSince (s.runValue cs).heap) =
          bs.map (fun b => (s.heap.sizeAt b, b)) ∧
        Event.losses (s.heap.eventsSince (s.runValue cs').heap) =
          bs'.map fun b => (s.heap.sizeAt b, b) := by
  obtain ⟨-, w, hw, he, -⟩ := hs.exact
  have hregisters := hw.toRegisters_runValue he hcs
  have hsame : (s.runValue cs').toRegisters = (s.runValue cs).toRegisters := by
    rw [hregisters, hw.toRegisters_runValue he hcs', hperm.foldl_eq]
  -- both orders leave the same owners, so the heaps are confluent
  have hy := hw.yields_runValue hcs
  have hy' := hw.yields_runValue hcs'
  have howners : (s.runValue cs').ledger w =
      ⟨(s.runValue cs').heap, (s.runValue cs).owners, w⟩ := by
    rw [Session.ledger, hsame]
  have hheap : (s.runValue cs').heap.withoutTrace = (s.runValue cs).heap.withoutTrace :=
    Yields.confluent hw.sound he hw.unaltered hw.accounted hw.strays (howners ▸ hy') hy
  have hblock (b : BlockId) : (s.runValue cs').heap.block? b = (s.runValue cs).heap.block? b := by
    show (s.runValue cs').heap.withoutTrace.block? b = (s.runValue cs).heap.withoutTrace.block? b
    rw [hheap]
  obtain ⟨bs, hl, hlosses⟩ := hw.loses_runValue he hcs
  obtain ⟨bs', hl', hlosses'⟩ := hw.loses_runValue he hcs'
  have hperm' : bs'.Perm bs := by
    refine (List.perm_ext_iff_of_nodup hl'.once hl.once).mpr fun b => ?_
    rw [hl.mem_iff, hl'.mem_iff, hblock]
  exact ⟨hregisters, hsame, hheap, bs, bs', hl.once, hperm', hl.mem_iff, hlosses, hlosses'⟩

/-- A block is owned by a handle, by two raw references, and by a list that a cell shares with a
variable. Whichever of the owners goes last, nothing is left. -/
theorem shared_block_drops_in_any_order :
    let s := Session.runValue [.common (.allocate "a" (.int 1)), .common (.allocate "b" (.int 2)),
      .common (.define "x" (.list [.handle "b"])), .common (.set "a" (.var "x")),
      .common (.rawOf "b" "r"), .common (.rawRetain "r")] (.empty (.ofMemory 100))
    let one : List ValueCommand := [.common (.drop "a"), .common (.rawRelease "r"),
      .common (.drop "b"), .common (.forget "x"), .common (.rawRelease "r")]
    let other : List ValueCommand := [.common (.rawRelease "r"), .common (.forget "x"),
      .common (.rawRelease "r"), .common (.drop "b"), .common (.drop "a")]
    (s.runValue one).heap.stats = ⟨0, 0⟩ ∧
      (s.runValue other).heap.withoutTrace = (s.runValue one).heap.withoutTrace := by
  intro s one other
  have hs : Reached Session.stepValue (fun c _ => c.Steady) s :=
    (Reached.start _).runBy (by simp [ValueCommand.Steady, Command.Steady])
  have hone : ∀ c ∈ one, c.GivesUp := by simp [one, ValueCommand.GivesUp, Command.GivesUp]
  have hother : ∀ c ∈ other, c.GivesUp := by simp [other, ValueCommand.GivesUp, Command.GivesUp]
  have hperm : (ValueCommand.owners one).Perm (ValueCommand.owners other) := by decide
  have hcommutes := hs.dropping_commutes hone hother hperm
  exact ⟨by decide +kernel, hcommutes.2.2.1⟩

/-- Wherever a command has come to that sets no count by hand, cascades may take the parts of
payloads in any order, and the heap that they leave is the same. -/
theorem Reached.indifferent {s : Session Value}
    (hs : Reached Session.stepValue (fun c _ => c.Steady) s) {c : ValueCommand} (hc : c.Steady) :
    s.Throughout Ledger.Indifferent (s.stepValue c).2 := by
  obtain ⟨-, w, hw, he, -⟩ := hs.exact
  obtain ⟨w', -, hmoves⟩ := hw.step hc (hw.sensible he c)
  refine .of_moves hmoves fun l hl => ?_
  have he' : l.Exact := Moves.tally countRule_exactly hl hw.sound he
  exact he'.indifferent (Moves.sound hl hw.sound)
    (Moves.keeps Heap.kept_unaltered hl hw.sound hw.unaltered)
    (Moves.keeps Heap.kept_accounted hl hw.sound hw.accounted)
    (Moves.keeps (Heap.kept_strays []) hl hw.sound hw.strays)

end CountedCells

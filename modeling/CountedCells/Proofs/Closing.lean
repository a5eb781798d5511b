import CountedCells.Proofs.Runs

/-!
# Closing: how all owners are dropped

A session can be closed, which drops everything that it names. Or its owners can be given up one by
one, by commands that drop handles, forget or disown variables and release raw blocks, in whatever
order. Both ways nothing happens but that references are given back (`Session.Dropped.yields`).
-/

namespace CountedCells

open Attempt

variable {V : Type} [Host V] [Faced V]

/-! ## Closing a session -/

/-- The order of entries does not matter for what is gathered from them. -/
theorem Entries.gather_sorted {κ α M : Type} [AddCommMonoid M] (f : α → M) (le : κ → κ → Bool)
    (entries : List (κ × α)) : gather f (sorted le entries) = gather f entries :=
  ((List.mergeSort_perm entries _).map _).sum_eq

/-- Owners are dropped entry by entry. -/
theorem Yields.foldl {α : Type} {f : α → Multiset (Owner V)} (give : α → Heap V → Heap V)
    {w : Written V} (xs : List (String × α))
    (hgive : ∀ a h os, Ledger.Sound ⟨h, f a + os, w⟩ → Yields ⟨h, f a + os, w⟩ ⟨give a h, os, w⟩)
    {h : Heap V} {os : Multiset (Owner V)}
    (hl : Ledger.Sound ⟨h, Entries.gather f xs + os, w⟩) :
    Yields ⟨h, Entries.gather f xs + os, w⟩ ⟨xs.foldl (fun h x => give x.2 h) h, os, w⟩ := by
  induction xs generalizing h with
  | nil => exact reown .refl (zero_add os)
  | cons x xs ih =>
    rw [Entries.gather_cons, add_assoc] at hl ⊢
    have hfirst := hgive x.2 h _ hl
    exact hfirst.trans (ih (Moves.sound hfirst.moves hl))

/-- Closing a session gives everything back. -/
theorem Session.yields_close {s : Session V} {w : Written V} (hl : (s.ledger w).Sound) :
    Yields (s.ledger w) ⟨s.close.heap, 0, w⟩ := by
  have howners : s.owners =
      Entries.gather Registers.ofVariable (Entries.sorted nameLe s.values) +
        (Entries.gather Owner.ofPointer (Entries.sorted nameLe s.handles) +
          (Entries.gather Owner.ofRaw (Entries.sorted nameLe s.raws) + 0)) := by
    rw [Entries.gather_sorted, Entries.gather_sorted, Entries.gather_sorted, Registers.owners]
    abel
  rw [Session.ledger] at hl ⊢
  rw [howners] at hl ⊢
  -- each round starts from a ledger that is sound because the one before was made of moves
  have hvalues := Yields.foldl (fun v h => h.drop v) _ (fun _ _ _ _ => .drop) hl
  have hl₁ := Moves.sound hvalues.moves hl
  have hhandles := Yields.foldl (fun p h => h.dropPointer p) _ (fun _ _ _ _ => .dropPointer) hl₁
  have hl₂ := Moves.sound hhandles.moves hl₁
  have hraws := Yields.foldl RawBlock.giveBack _ (fun _ _ _ => .giveBack) hl₂
  exact (hvalues.trans hhandles).trans hraws

/-! ## Giving up owners one by one -/

/-- The command gives up an owner. -/
def Command.GivesUp {E : Type} : Command E → Prop
  | .drop _ | .disown _ | .forget _ | .rawRelease _ => True
  | _ => False

/-- The command gives up an owner. -/
def ValueCommand.GivesUp : ValueCommand → Prop
  | .common c => c.GivesUp
  | _ => False

namespace Session

variable {s : Session V} {w : Written V}

/-- References are given back in the step from one session to another. -/
structure GivesUp (s s' : Session V) (w : Written V) : Prop where
  /-- nothing else happens -/
  yields : Yields (s.ledger w) (s'.ledger w)
  /-- raw blocks are there for their references -/
  proper : s'.Proper

omit [Faced V] in
theorem step_drop {E : Type} [Expression E V] (s : Session V) (name : String) :
    s.step (.drop name : Command E) =
      (s.handles.lookup name).elim (.error (.noHandle name), s) fun p =>
        (.ok .done, ⟨{ s.toRegisters with handles := Entries.remove name s.handles },
          s.heap.dropPointer p⟩) := by
  rcases hp : s.handles.lookup name with - | p
  · exact bind_of_error (by rw [Act.handle, find_apply, Registers.handleNamed, hp])
  · exact bind_of_ok (by rw [Act.handle, find_apply, Registers.handleNamed, hp])

omit [Host V] [Faced V] in
theorem takeVariable_apply (s : Session V) (name : String) :
    Act.takeVariable name s =
      (s.values.lookup name).elim (.error (.noVariable name), s) fun v =>
        (.ok v, { s with values := Entries.remove name s.values }) := by
  rcases hv : s.values.lookup name with - | v
  · exact bind_of_error (by rw [Act.variableValue, find_apply, Registers.variableNamed, hv])
  · exact bind_of_ok (by rw [Act.variableValue, find_apply, Registers.variableNamed, hv])

omit [Faced V] in
theorem step_rawRelease {E : Type} [Expression E V] (s : Session V) (name : String) :
    s.step (.rawRelease name : Command E) =
      (s.raws.lookup name).elim (.error (.noRaw name), s) fun u =>
        (.ok (.released (s.heap.release u.block u.size).1),
          if (s.heap.release u.block u.size).1 = .expired then
            { s with heap := (s.heap.release u.block u.size).2 }
          else ⟨s.toRegisters.released name u, (s.heap.release u.block u.size).2⟩) := by
  rcases hu : s.raws.lookup name with - | u
  · exact bind_of_error (by rw [Act.rawBlock, find_apply, Registers.rawNamed, hu])
  · refine (bind_of_ok (a := u) ?_).trans (bind_of_ok (Act.releaseRaw_apply rfl))
    rw [Act.rawBlock, find_apply, Registers.rawNamed, hu]

omit [Faced V] in
/-- A variable is removed, and its value given back in one way or another. -/
theorem givesUp_takeVariable {last : V → Heap V → Heap V} (name : String) (hproper : s.Proper)
    (hlast : ∀ v h os, Yields ⟨h, {.value .caller v} + os, w⟩ ⟨last v h, os, w⟩) :
    s.GivesUp ((do
      let v ← Act.takeVariable name
      Act.updateHeap (last v)
      pure Answer.done : Act V (Answer V)) s).2 w := by
  have htake := takeVariable_apply s name
  rcases hv : s.values.lookup name with - | v
  · rw [hv, Option.elim_none] at htake
    rw [bind_of_error htake]
    exact ⟨.refl, hproper⟩
  · rw [hv, Option.elim_some] at htake
    rw [bind_of_ok htake]
    let rest : Registers V := { s.toRegisters with values := Entries.remove name s.values }
    refine ⟨.reown (hlast v s.heap rest.owners) ?_, hproper⟩
    rw [← Registers.owners_removeVariable s.toRegisters name, hv]
    rfl

/-- A command that gives up an owner does nothing else. -/
theorem InOrder.givesUp {E : Type} [Expression E V] (hs : s.InOrder w) {c : Command E}
    (hc : c.GivesUp) : s.GivesUp (s.step c).2 w := by
  cases c with
  | drop name =>
    rw [step_drop]
    rcases hp : s.handles.lookup name with - | p
    · exact ⟨.refl, hs.proper⟩
    · refine ⟨.reown .dropPointer ?_, hs.proper⟩
      rw [← Registers.owners_removeHandle s.toRegisters name, hp]
      rfl
  | disown name => exact givesUp_takeVariable name hs.proper fun _ _ _ => .disown
  | forget name => exact givesUp_takeVariable name hs.proper fun _ _ _ => .drop
  | rawRelease name =>
    rw [step_rawRelease]
    rcases hu : s.raws.lookup name with - | u
    · exact ⟨.refl, hs.proper⟩
    · -- the reference is set apart from the other owners before it is given back
      have howners := Registers.owners_released hu (hs.proper.owned_pos hu)
      have hl := hs.sound
      rw [Session.ledger, howners] at hl
      rw [Option.elim_some]
      rcases Yields.release hl with ⟨hexpired, hheap, -⟩ | ⟨hne, hy⟩
      · rw [if_pos hexpired, hheap]
        exact ⟨.refl, hs.proper⟩
      · rw [if_neg hne]
        exact ⟨.reown hy howners, hs.proper.released⟩
  | _ => exact hc.elim

end Session

/-! ## All owners -/

namespace Session

/-- All owners of a session are dropped: it is closed, or commands give them up one by one. -/
inductive Dropped (s : Session Value) : Heap Value → Prop where
  /-- the session is closed -/
  | close : Dropped s s.close.heap
  /-- commands give up one owner after the other, until there are none -/
  | commands {cs : List ValueCommand} (hcs : ∀ c ∈ cs, c.GivesUp)
      (hhandles : (s.runValue cs).handles = []) (hvalues : (s.runValue cs).values = [])
      (hraws : (s.runValue cs).raws = []) : Dropped s (s.runValue cs).heap

variable {s : Session Value} {w : Written Value}

theorem InOrder.givesUp_stepValue {c : ValueCommand} (hs : s.InOrder w) (hc : c.GivesUp) :
    s.GivesUp (s.stepValue c).2 w := by
  cases c with
  | common c =>
    rw [stepValue_common]
    exact hs.givesUp hc
  | _ => exact hc.elim

theorem InOrder.yields_runValue {cs : List ValueCommand} (hs : s.InOrder w)
    (hcs : ∀ c ∈ cs, c.GivesUp) : Yields (s.ledger w) ((s.runValue cs).ledger w) := by
  induction cs generalizing s with
  | nil => exact .refl
  | cons c cs ih =>
    have hstep := hs.givesUp_stepValue (hcs c List.mem_cons_self)
    have hs' := hs.of_moves hstep.yields.moves hstep.proper
    exact hstep.yields.trans (ih hs' fun c' hc' => hcs c' (List.mem_cons_of_mem c hc'))

/-- When all owners are dropped, references are given back and nothing else happens. -/
theorem Dropped.yields {h : Heap Value} (hd : s.Dropped h) (hs : s.InOrder w) :
    Yields (s.ledger w) ⟨h, 0, w⟩ := by
  cases hd with
  | close => exact yields_close hs.sound
  | @commands cs hcs hhandles hvalues hraws =>
    have hnobody : (s.runValue cs).owners = 0 := by
      rw [Registers.owners, hhandles, hvalues, hraws]
      rfl
    have hy : Yields (s.ledger w) ⟨(s.runValue cs).heap, (s.runValue cs).owners, w⟩ :=
      hs.yields_runValue hcs
    rwa [hnobody] at hy

end Session
end CountedCells

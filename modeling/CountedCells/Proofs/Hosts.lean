import CountedCells.Proofs.Closing

/-!
# Hosts: runs of sessions whatever the cells hold

The commands that have nothing to do with the structure of values drive sessions of any host, of
watched numbers among them. They are kept in order for the same reason as sessions of values: what a
command does to the ledger is made of moves.

So a property of the heap that moves keep holds in all careful runs of every host, provided that it
has nothing to do with counts; such properties are `Lasting`. Since it holds after each move of a
command, it holds throughout the command: wherever the command has come to.
-/

namespace CountedCells

open Attempt

/-! ## Watched numbers -/

/-- What descriptions of watched numbers mean. -/
instance : Meaning Tracked.Term where
  blank := .int 0
  meaning r t :=
    match t with
    | .literal n => .ok (.int n)
    | .var name => r.variableNamed name

/-- A number owns nothing, so whoever has it has nothing to give back. -/
theorem Stage.adoptNumber {l : Ledger Tracked} {h : Heap Tracked} {os : Multiset (Owner Tracked)}
    {w : Written Tracked} (st : Stage l h os w) (t : Tracked) :
    Stage l h ({.value .caller t} + os) w := by
  refine (st.reown ?_).step (.adopt ?_)
  · exact (zero_add os).symm
  · intro p hp
    cases hp

instance : Faithful Tracked.Term Tracked where
  blank_eq := rfl
  mirrors_eval {l h os w may} r t st _ := by
    cases t with
    | literal n => exact .done (a := ⟨n⟩) (st.adoptNumber ⟨n⟩) rfl rfl
    | var name =>
      have hmeant := Registers.variableNamed_faces r name
      have hrun : (Tracked.Term.var name).eval r = ofExcept (r.variableNamed name) := rfl
      rcases hv : r.variableNamed name with e | v
      · rw [hv] at hmeant hrun
        exact .stopped st (congrFun hrun h) (Plan.find_of_error hmeant)
      · rw [hv] at hmeant hrun
        exact .done (st.adoptNumber v) (congrFun hrun h) (Plan.find_of_ok hmeant)

variable {V E : Type} [Host V] [Faced V] [Expression E V]

/-! ## Properties that last -/

/-- Properties of a heap that moves keep and that have nothing to do with counts. -/
structure Lasting (P : Heap V → Prop) : Prop where
  /-- they hold where nothing has happened -/
  start : ∀ system, P (.empty system)
  /-- a move keeps them -/
  move : ∀ {l l' : Ledger V}, Move l l' → l.Sound → P l.heap → P l'.heap
  /-- so does setting a count by hand -/
  setCount : ∀ {h : Heap V} b n, P h → P (h.setCount b n)

namespace Lasting

variable {P : Heap V → Prop} {s s' : Session V} {w w' : Written V}

theorem moves (hP : Lasting P) {l l' : Ledger V} (ms : Moves l l') (hl : l.Sound)
    (hp : P l.heap) : P l'.heap := by
  induction ms with
  | refl => exact hp
  | tail ms m ih => exact hP.move m (Moves.sound ms hl) ih

/-- A careful command keeps what lasts. -/
theorem advances (hP : Lasting P) (hs : s.InOrder w) (hp : P s.heap) (ha : s.Advances w s') :
    P s'.heap := by
  cases ha with
  | moves _ hmoves => exact hP.moves hmoves hs.sound hp
  | @setCount b n hn heq =>
    rw [heq]
    exact hP.setCount b n hp

/-- What lasts holds throughout a command. -/
theorem throughout (hP : Lasting P) (hs : s.InOrder w) (hp : P s.heap)
    (hmoves : Moves (s.ledger w) (s'.ledger w')) : s.Throughout (fun l => P l.heap) s' :=
  .of_moves hmoves fun _ hl => hP.moves hl hs.sound hp

end Lasting

/-- Closing a session is made of moves. -/
theorem Session.InOrder.moves_close {s : Session V} {w : Written V} (hs : s.InOrder w) :
    Moves (s.ledger w) (s.close.ledger w) :=
  (Session.yields_close hs.sound).moves

namespace Reached

/-- Careful runs keep a session in order, and what lasts holds. -/
theorem lasts {P : Heap Value → Prop} (hP : Lasting P) {s : Session Value}
    (hs : Reached Session.stepValue ValueCommand.Careful s) : ∃ w, s.InOrder w ∧ P s.heap :=
  hs.keeps hP.start (fun hs hc => hs.advances_stepValue hc) hP.advances

/-- In a session of any host, too. -/
theorem lasts_step [Meaning E] [Faithful E V] {P : Heap V → Prop} (hP : Lasting P) {s : Session V}
    (hs : Reached (Session.step (E := E)) Command.Careful s) : ∃ w, s.InOrder w ∧ P s.heap :=
  hs.keeps hP.start (fun hs hc => hs.advances_step hc) hP.advances

end Reached
end CountedCells

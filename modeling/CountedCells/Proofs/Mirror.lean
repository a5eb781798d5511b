import CountedCells.Proofs.Plain
import CountedCells.Proofs.Stage

/-!
# Mirrors: operations on a heap and plans on a plain store

`Written.cells` forgets which values share what, and so turns the record of writing into the cells
of a plain store. An operation `Mirrors` a plan if it succeeds where the plan does, with the result
and the cells that the plan gives, and fails where the plan fails, for the same reason. There are
two differences: a heap can be short of room, and then an operation that makes blocks is refused
(`may`), and a block can be to blame, which with exact counts takes too many owners.
Owners are told in any case: `own` tells who owns what the operation gives.

The operations here write to blocks of their own making at most, so nothing of the record changes.
-/

namespace CountedCells

open Attempt

/-! ## Reasons to fail -/

/-- Reasons why a command can fail. -/
class Reason (ε : Type) where
  /-- how the command fails -/
  failure : ε → Failure

export Reason (failure)

instance : Reason Fault := ⟨.fault⟩

instance : Reason Failure := ⟨id⟩

/-- There was no room for a block. -/
def Failure.IsRefusal : Failure → Prop
  | .fault (.error (.allocation _)) => True
  | _ => False

/-! ## What plans do to a plain store -/

namespace Plan

variable {α β : Type}

theorem bind_of_ok {plan : Plan α} {F : α → Plan β} {p p' : Plain} {a : α}
    (h : plan p = .ok (a, p')) : (plan >>= F) p = F a p' := by
  show (plan p >>= fun x => F x.1 x.2) = F a p'
  rw [h]
  rfl

theorem bind_of_error {plan : Plan α} {F : α → Plan β} {p : Plain} {f : Failure}
    (h : plan p = .error f) : (plan >>= F) p = .error f := by
  show (plan p >>= fun x => F x.1 x.2) = .error f
  rw [h]
  rfl

theorem find_of_ok {f : Plain → Except Failure α} {p : Plain} {a : α} (h : f p = .ok a) :
    find f p = .ok (a, p) := by
  rw [find, h]
  rfl

theorem find_of_error {f : Plain → Except Failure α} {p : Plain} {e : Failure}
    (h : f p = .error e) : find f p = .error e := by
  rw [find, h]
  rfl

theorem fresh_of_ne_nil {ds : List Datum} (h : ds ≠ []) (p : Plain) :
    fresh ds p = .ok (.cells p.cells.length ds.length, { p with cells := p.cells ++ [ds] }) := by
  refine bind_of_ok (a := p.cells.length) ?_
  exact if_neg h

end Plan

section

variable {V : Type} [Host V] [Faced V]

/-! ## The record as a plain store -/

/-- The data in cells; a cell that was never written shows the default value. -/
def facesOf (os : List (Option V)) : List Datum := os.map fun o => face (o.getD default)

/-- The data in all cells there ever were. -/
def Written.cells (w : Written V) : Cells := w.map facesOf

namespace Written

theorem cells_append (w w' : Written V) : Written.cells (w ++ w') = w.cells ++ Written.cells w' :=
  List.map_append

theorem cells_mono {w w' : Written V} (h : w <+: w') : w.cells <+: w'.cells := by
  obtain ⟨v, rfl⟩ := h
  exact ⟨Written.cells v, (cells_append w v).symm⟩

@[simp] theorem length_cells (w : Written V) : w.cells.length = w.length := List.length_map _

theorem cells_put (w : Written V) (b : BlockId) (i : Nat) (o : Option V) :
    (w.put b i o).cells = w.cells.put b i (face (o.getD default)) := by
  apply List.ext_getElem?
  intro c
  simp only [cells, put, Cells.put, List.getElem?_map, List.getElem?_modify]
  rcases w[c]? with - | os
  · rfl
  · by_cases hc : b = c
    · simp [hc, facesOf, List.map_set]
    · simp [hc]

/-- The entry of a cell is what it was last written. -/
theorem entry_cells {w : Written V} {b i : Nat} {os : List (Option V)} (hos : w[b]? = some os)
    (hi : i < os.length) : w.cells.entry b i = face ((w.at? b i).getD default) := by
  have hcells : w.cells[b]? = some (facesOf os) := by rw [cells, List.getElem?_map, hos]; rfl
  have hget : os[i]? = some os[i] := List.getElem?_eq_getElem hi
  rw [Cells.entry, hcells, at?, hos, Option.bind_some, Option.bind_some, facesOf,
    List.getElem?_map, hget]
  rfl

theorem entries_cells {w : Written V} {b : Nat} {os : List (Option V)} (hos : w[b]? = some os) :
    w.cells.entries b = facesOf os := by
  rw [Cells.entries, cells, List.getElem?_map, hos]
  rfl

omit [Host V] [Faced V] in
/-- Filling the next cell of the block that was made last. -/
theorem put_last (w : Written V) (xs ys : List (Option V)) (o : Option V) :
    Written.put (w ++ [xs ++ none :: ys]) w.length xs.length o = w ++ [xs ++ o :: ys] := by
  rw [put, modify_eq_set_of_getElem? _ List.getElem?_concat_length]
  simp

end Written

/-! ## Mirrors -/

/-- An operation does to a heap what a plan does to a plain store. -/
def Mirrors {ε α β : Type} [Reason ε] (l : Ledger V) (r : Registers Datum) (may : Prop)
    (out : Except ε α × Heap V) (plan : Plan β) (own : α → Multiset (Owner V)) (view : α → β)
    (os : Multiset (Owner V)) (w : Written V) : Prop :=
  Ends out
    (fun a h => ∃ w', w <+: w' ∧ Stage l h (own a + os) w' ∧
      plan ⟨r, w.cells⟩ = .ok (view a, ⟨r, Written.cells w'⟩))
    (Stops l os w fun e => (plan ⟨r, w.cells⟩ = .error (failure e) ∨ may ∧ (failure e).IsRefusal) ∨
      l.Blames (failure e))

namespace Mirrors

variable {ε α β α' β' : Type} [Reason ε] {l : Ledger V} {r : Registers Datum} {may : Prop}
  {h : Heap V} {os : Multiset (Owner V)} {w : Written V}

/-- Nothing is done to the cells. -/
theorem done {out : Except ε α × Heap V} {plan : Plan β} {own : α → Multiset (Owner V)}
    {view : α → β} {a : α} (st : Stage l h (own a + os) w) (hrun : out = (.ok a, h))
    (hplan : plan ⟨r, w.cells⟩ = .ok (view a, ⟨r, w.cells⟩)) :
    Mirrors l r may out plan own view os w :=
  ends_of_ok hrun ⟨w, List.prefix_rfl, st, hplan⟩

/-- Nothing is done, because the plan cannot be carried out. -/
theorem stopped {out : Except ε α × Heap V} {plan : Plan β} {own : α → Multiset (Owner V)}
    {view : α → β} {e : ε} (st : Stage l h os w) (hrun : out = (.error e, h))
    (hplan : plan ⟨r, w.cells⟩ = .error (failure e)) : Mirrors l r may out plan own view os w :=
  ends_of_error hrun ⟨w, List.prefix_rfl, st, .inl (.inl hplan)⟩

/-- Only what the plan does to this store matters. -/
theorem of_plan {out : Except ε α × Heap V} {plan plan' : Plan β} {own : α → Multiset (Owner V)}
    {view : α → β} (hout : Mirrors l r may out plan own view os w)
    (hplan : plan' ⟨r, w.cells⟩ = plan ⟨r, w.cells⟩) : Mirrors l r may out plan' own view os w := by
  unfold Mirrors at hout ⊢
  rwa [hplan]

/-- What is known after the first part is where the second part starts from; it may also be known
what results there can be (`R`). -/
theorem bind_of {act : Attempt ε (Heap V) α} {f : α → Attempt ε (Heap V) α'} {plan : Plan β}
    {F : β → Plan β'} {own : α → Multiset (Owner V)} {view : α → β}
    {own' : α' → Multiset (Owner V)} {view' : α' → β'} {R : α → Prop}
    (hact : Mirrors l r may (act h) plan own view os w)
    (hR : Ends (act h) (fun a _ => R a) fun _ _ => True)
    (hf : ∀ a h' w', R a → Stage l h' (own a + os) w' →
      Mirrors l r may (f a h') (F (view a)) own' view' os w') :
    Mirrors l r may ((act >>= f) h) (plan >>= F) own' view' os w := by
  refine Ends.bind ((hact.and hR).mono (fun _ _ => id) ?_) ?_
  · rintro e h' ⟨⟨w', hw, st, hcause⟩, -⟩
    exact ⟨w', hw, st, hcause.imp_left (·.imp_left Plan.bind_of_error)⟩
  · rintro a h' ⟨⟨w', hw, st, hplan⟩, ha⟩
    refine (hf a h' w' ha st).mono ?_ ?_
    · rintro a' h'' ⟨w'', hw', st', hplan'⟩
      exact ⟨w'', hw.trans hw', st', (Plan.bind_of_ok hplan).trans hplan'⟩
    · rintro e h'' ⟨w'', hw', st', hcause⟩
      exact ⟨w'', hw.trans hw', st',
        hcause.imp_left (·.imp_left (Plan.bind_of_ok hplan).trans)⟩

theorem bind {act : Attempt ε (Heap V) α} {f : α → Attempt ε (Heap V) α'} {plan : Plan β}
    {F : β → Plan β'} {own : α → Multiset (Owner V)} {view : α → β}
    {own' : α' → Multiset (Owner V)} {view' : α' → β'}
    (hact : Mirrors l r may (act h) plan own view os w)
    (hf : ∀ a h' w', Stage l h' (own a + os) w' →
      Mirrors l r may (f a h') (F (view a)) own' view' os w') :
    Mirrors l r may ((act >>= f) h) (plan >>= F) own' view' os w :=
  hact.bind_of (R := fun _ => True) (ends_true _) fun a h' w' _ => hf a h' w'

/-- An operation that undoes what others left before it ends early. -/
theorem orElseUndo {act : Attempt ε (Heap V) α} {undo : Heap V → Heap V} {plan : Plan β}
    {own : α → Multiset (Owner V)} {view : α → β} {held : Multiset (Owner V)}
    (hact : Mirrors l r may (act h) plan own view (held + os) w)
    (hundo : ∀ h' w', Stage l h' (held + os) w' → Stage l (undo h') os w') :
    Mirrors l r may (act.orElseUndo undo h) plan (fun a => own a + held) view os w := by
  refine Ends.orElseUndo (hact.mono ?_ fun _ _ => id) ?_
  · rintro a h' ⟨w', hw, st, hplan⟩
    exact ⟨w', hw, st.reown (add_assoc _ _ _).symm, hplan⟩
  · rintro e h' ⟨w', hw, st, hcause⟩
    exact ⟨w', hw, hundo h' w' st, hcause⟩

/-- An operation after which something is given back. -/
theorem andFinally {act : Attempt ε (Heap V) α} {last : Heap V → Heap V} {plan : Plan β}
    {own : α → Multiset (Owner V)} {view : α → β} {held : Multiset (Owner V)}
    (hact : Mirrors l r may (act h) plan own view (held + os) w)
    (hlast : ∀ h' os' w', Stage l h' (held + os') w' → Stage l (last h') os' w') :
    Mirrors l r may (act.andFinally last h) plan own view os w := by
  refine Ends.andFinally hact ?_ ?_
  · rintro a h' ⟨w', hw, st, hplan⟩
    exact ⟨w', hw, hlast h' _ w' (st.reown (add_left_comm _ _ _)), hplan⟩
  · rintro e h' ⟨w', hw, st, hcause⟩
    exact ⟨w', hw, hlast h' os w' st, hcause⟩

/-- What owns nothing and changes nothing but the heap leaves the plan alone. -/
theorem update_bind {f : Unit → Attempt ε (Heap V) α} {g : Heap V → Heap V} {plan : Plan β}
    {own : α → Multiset (Owner V)} {view : α → β}
    (hf : Mirrors l r may (f () (g h)) plan own view os w) :
    Mirrors l r may ((update g >>= f) h) plan own view os w := hf

/-- An operation on cells as an evaluation. -/
theorem ofAction {act : Action V α} {plan : Plan β} {own : α → Multiset (Owner V)} {view : α → β}
    (hact : Mirrors l r may (act h) plan own view os w) :
    Mirrors l r may (Evaluation.ofAction act h) plan own view os w := by
  rw [Evaluation.ofAction]
  rcases hrun : act h with ⟨outcome, h'⟩
  rw [hrun] at hact
  cases outcome with
  | ok a => exact hact
  | error e => exact hact

/-- Where nothing is refused, an operation gives what its plan does, or a block is to blame. -/
theorem ends_view {out : Except ε α × Heap V} {plan : Plan β} {own : α → Multiset (Owner V)}
    {view : α → β} {b : β} {p : Plain} (hout : Mirrors l r False out plan own view os w)
    (hplan : plan ⟨r, w.cells⟩ = .ok (b, p)) :
    Ends out (fun a _ => view a = b) fun e _ => l.Blames (failure e) := by
  refine Ends.mono hout ?_ ?_
  · rintro a h' ⟨w', -, -, hok⟩
    cases hok.symm.trans hplan
    rfl
  · rintro e h' ⟨w', -, -, (herror | ⟨hfalse, -⟩) | hblames⟩
    · cases herror.symm.trans hplan
    · exact hfalse.elim
    · exact hblames

/-- A check has the same outcome. -/
theorem checked_bind {x : Except HeapError α} {f : α → Action V α'} {F : α → Plan β'}
    {own : α' → Multiset (Owner V)} {view : α' → β'} (st : Stage l h os w)
    (hf : ∀ a, x = .ok a → Mirrors l r may (f a h) (F a) own view os w) :
    Mirrors l r may ((Pointer.checked x >>= f) h) (Plan.checked x >>= F) own view os w := by
  cases x with
  | ok a => exact hf a rfl
  | error e => exact Mirrors.stopped st rfl rfl

end Mirrors

end

end CountedCells

/-!
# Attempt: operations that can end early

An `Attempt ε σ α` runs on a state `σ` and either gives an `α` or ends early with an `ε`. In both
cases there is a state afterwards: **what was done before the end stays done**. An operation that
has to leave nothing behind puts things right itself, with `orElseUndo`.

The lemmas say what each construct does to a given state; with them no proof has to look at how
the monad is built.
-/

namespace CountedCells

/-- An operation on a state that can end early. -/
abbrev Attempt (ε σ α : Type) := ExceptT ε (StateM σ) α

namespace Attempt

variable {ε σ α β : Type}

/-- Change the state. -/
def update (f : σ → σ) : Attempt ε σ Unit := fun s => (.ok (), f s)

/-- Look something up in the state. -/
def look (f : σ → α) : Attempt ε σ α := fun s => (.ok (f s), s)

/-- Look something up in the state that may not be there. -/
def find (f : σ → Except ε α) : Attempt ε σ α := fun s => (f s, s)

/-- Change the state, with a result. -/
def change (f : σ → α × σ) : Attempt ε σ α := fun s => (.ok (f s).1, (f s).2)

/-- Put something right if an operation ends early, and pass the reason on. -/
def orElseUndo (act : Attempt ε σ α) (undo : σ → σ) : Attempt ε σ α := fun s =>
  match act s with
  | (.ok a, s') => (.ok a, s')
  | (.error e, s') => (.error e, undo s')

/-- Do something after an operation, whether it ended early or not. -/
def andFinally (act : Attempt ε σ α) (last : σ → σ) : Attempt ε σ α := fun s =>
  ((act s).1, last (act s).2)

/-! ## What they do to a state -/

@[simp] theorem pure_apply (a : α) (s : σ) : (pure a : Attempt ε σ α) s = (.ok a, s) := rfl

@[simp] theorem throw_apply (e : ε) (s : σ) :
    (throw e : Attempt ε σ α) s = (.error e, s) := rfl

@[simp] theorem update_apply (f : σ → σ) (s : σ) :
    (update f : Attempt ε σ Unit) s = (.ok (), f s) := rfl

@[simp] theorem look_apply (f : σ → α) (s : σ) :
    (look f : Attempt ε σ α) s = (.ok (f s), s) := rfl

@[simp] theorem find_apply (f : σ → Except ε α) (s : σ) : find f s = (f s, s) := rfl

@[simp] theorem change_apply (f : σ → α × σ) (s : σ) :
    (change f : Attempt ε σ α) s = (.ok (f s).1, (f s).2) := rfl

@[simp] theorem andFinally_apply (act : Attempt ε σ α) (last : σ → σ) (s : σ) :
    act.andFinally last s = ((act s).1, last (act s).2) := rfl

/-- An operation after one that succeeded runs on the state left behind. -/
theorem bind_of_ok {act : Attempt ε σ α} {f : α → Attempt ε σ β} {s s' : σ} {a : α}
    (h : act s = (.ok a, s')) : (act >>= f) s = f a s' := by
  show (match act s with | (r, t) => ExceptT.bindCont f r t) = f a s'
  rw [h]
  rfl

/-- An operation after one that ended early is not run. -/
theorem bind_of_error {act : Attempt ε σ α} {f : α → Attempt ε σ β} {s s' : σ} {e : ε}
    (h : act s = (.error e, s')) : (act >>= f) s = (.error e, s') := by
  show (match act s with | (r, t) => ExceptT.bindCont f r t) = (.error e, s')
  rw [h]
  rfl

/-- Two operations succeed if the first does and then the second. -/
theorem bind_eq_ok {act : Attempt ε σ α} {f : α → Attempt ε σ β} {s s'' : σ} {b : β}
    (h : (act >>= f) s = (.ok b, s'')) :
    ∃ a s', act s = (.ok a, s') ∧ f a s' = (.ok b, s'') := by
  rcases hr : act s with ⟨r, s'⟩
  cases r with
  | ok a =>
    rw [bind_of_ok hr] at h
    exact ⟨a, s', rfl, h⟩
  | error e =>
    rw [bind_of_error hr] at h
    cases h

end Attempt
end CountedCells

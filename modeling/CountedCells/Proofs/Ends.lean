import CountedCells.Attempt

/-!
# How an attempt ends

An attempt on a given state has one outcome: a result, or the reason why it ended early, and a
state in both cases. `Ends out Q E` says of an outcome that a result satisfies `Q` together with
its state, and a reason `E` together with its state.

Statements of this form compose along the way in which attempts are built: there is one rule for
each construct, and the rule for `>>=` hands what is known after the first part to the second.
-/

namespace CountedCells.Attempt

variable {ε σ α β : Type}

/-- A result as described by `Q`, or an early end as described by `E`. -/
def Ends (out : Except ε α × σ) (Q : α → σ → Prop) (E : ε → σ → Prop) : Prop :=
  match out with
  | (.ok a, s) => Q a s
  | (.error e, s) => E e s

variable {Q Q' : α → σ → Prop} {E E' : ε → σ → Prop} {s : σ}

theorem Ends.mono {out : Except ε α × σ} (h : Ends out Q' E')
    (hQ : ∀ a s, Q' a s → Q a s) (hE : ∀ e s, E' e s → E e s) : Ends out Q E := by
  obtain ⟨r, s⟩ := out
  cases r with
  | ok a => exact hQ a s h
  | error e => exact hE e s h

theorem ends_true (out : Except ε α × σ) : Ends out (fun _ _ => True) fun _ _ => True := by
  obtain ⟨r, s⟩ := out
  cases r <;> exact trivial

/-- Two descriptions of one outcome. -/
theorem Ends.and {out : Except ε α × σ} (h : Ends out Q E) (h' : Ends out Q' E') :
    Ends out (fun a s => Q a s ∧ Q' a s) fun e s => E e s ∧ E' e s := by
  obtain ⟨r, s⟩ := out
  cases r with
  | ok a => exact ⟨h, h'⟩
  | error e => exact ⟨h, h'⟩

theorem ends_of_ok {out : Except ε α × σ} {a : α} (hrun : out = (.ok a, s)) (h : Q a s) :
    Ends out Q E := by
  rw [hrun]
  exact h

theorem ends_of_error {out : Except ε α × σ} {e : ε} (hrun : out = (.error e, s)) (h : E e s) :
    Ends out Q E := by
  rw [hrun]
  exact h

theorem ends_pure {a : α} (h : Q a s) : Ends ((pure a : Attempt ε σ α) s) Q E := h

theorem ends_throw {e : ε} (h : E e s) : Ends ((throw e : Attempt ε σ α) s) Q E := h

theorem ends_update {f : σ → σ} {Q : Unit → σ → Prop} (h : Q () (f s)) :
    Ends ((update f : Attempt ε σ Unit) s) Q E := h

theorem ends_look {f : σ → α} (h : Q (f s) s) : Ends ((look f : Attempt ε σ α) s) Q E := h

theorem ends_change {f : σ → α × σ} (h : Q (f s).1 (f s).2) :
    Ends ((change f : Attempt ε σ α) s) Q E := h

/-- The first of two parts may be told in another way. -/
theorem bind_congr_left {act act' : Attempt ε σ β} {f : β → Attempt ε σ α} (h : act s = act' s) :
    (act >>= f) s = (act' >>= f) s := by
  rcases hr : act' s with ⟨r, s'⟩
  rw [hr] at h
  cases r with
  | ok b => rw [bind_of_ok h, bind_of_ok hr]
  | error e => rw [bind_of_error h, bind_of_error hr]

/-- What is known after the first part is where the second part starts from. -/
theorem Ends.bind {act : Attempt ε σ β} {f : β → Attempt ε σ α} {R : β → σ → Prop}
    (h : Ends (act s) R E) (hf : ∀ b s', R b s' → Ends (f b s') Q E) :
    Ends ((act >>= f) s) Q E := by
  rcases hr : act s with ⟨r, s'⟩
  rw [hr] at h
  cases r with
  | ok b =>
    rw [bind_of_ok hr]
    exact hf b s' h
  | error e =>
    rw [bind_of_error hr]
    exact h

theorem Ends.orElseUndo {act : Attempt ε σ α} {undo : σ → σ} (h : Ends (act s) Q E')
    (hundo : ∀ e s', E' e s' → E e (undo s')) : Ends (act.orElseUndo undo s) Q E := by
  rw [Attempt.orElseUndo]
  rcases hr : act s with ⟨r, s'⟩
  rw [hr] at h
  cases r with
  | ok a => exact h
  | error e => exact hundo e s' h

theorem Ends.andFinally {act : Attempt ε σ α} {last : σ → σ} (h : Ends (act s) Q' E')
    (hQ : ∀ a s', Q' a s' → Q a (last s')) (hE : ∀ e s', E' e s' → E e (last s')) :
    Ends (act.andFinally last s) Q E := by
  rw [andFinally_apply]
  rcases hr : act s with ⟨r, s'⟩
  rw [hr] at h
  cases r with
  | ok a => exact hQ a s' h
  | error e => exact hE e s' h

end CountedCells.Attempt

import CountedCells.Proofs.Mirror

/-!
# Handles: what can be done with a pointer, on a plain store

Every operation on pointers mirrors its plan, provided that somebody owns the pointers it is given
(`Owner.Keeps`) and that the values it stores can be copied (`Sourced`). Operations that write
change the record, so they are told in full: where they write and what.

A fresh block is filled cell by cell, while in the plain store it is there with all its entries at
once. The record of a block that is being filled is what is there already, and unset cells.
-/

namespace CountedCells

open Attempt

variable {V : Type} [Host V] [Faced V]

/-! ## Pointers that somebody has -/

/-- One of the owners has the reference of the pointer. -/
def Owner.Keeps (os : Multiset (Owner V)) (p : Pointer) : Prop :=
  ∀ b n, p = .cells b n → .block b n ∈ Owner.refs os

omit [Faced V] in
theorem Owner.keeps_of_mem {os : Multiset (Owner V)} {p : Pointer}
    (h : ofPointer p ≤ os) : Owner.Keeps os p := by
  rintro b n rfl
  refine Multiset.mem_of_le (Multiset.filterMap_le_filterMap _ h) ?_
  exact Multiset.mem_singleton_self _

theorem Pointer.scalar?_eq_ok {p : Pointer} {b : BlockId} (h : p.scalar? = .ok b) :
    ∃ n, p = .cells b n := by
  cases p with
  | null => cases h
  | cells c n =>
    rw [scalar?, block?] at h
    simp only at h
    split at h
    · cases h
    · cases h
      exact ⟨n, rfl⟩

theorem Pointer.slot?_eq_ok {p : Pointer} {i : Nat} {b : BlockId} (h : p.slot? i = .ok b) :
    ∃ n, p = .cells b n ∧ i < n := by
  cases p with
  | null => cases h
  | cells c n =>
    rw [slot?, block?] at h
    simp only at h
    split at h
    · rename_i hi
      cases h
      exact ⟨n, rfl, hi⟩
    · cases h

theorem Pointer.block?_eq_ok {p : Pointer} {b : BlockId} (h : p.block? = .ok b) :
    ∃ n, p = .cells b n := by
  cases p with
  | null => cases h
  | cells c n =>
    cases h
    exact ⟨n, rfl⟩

variable {l : Ledger V} {r : Registers Datum} {may : Prop} {h : Heap V} {os : Multiset (Owner V)}
  {w : Written V}

/-! ## Copies of pointers -/

/-- One more pointer to a block, once its reference is taken. -/
theorem mirrors_of_taken {act : Action V Unit} {b n : Nat}
    (hact : Ends (act h) (fun _ h' => Stage l h' ({.ref (.block b n)} + os) w)
      (Stops l os w fun f => l.Blames (.fault f))) :
    Mirrors l r may ((act >>= fun _ => Pure.pure (.cells b n)) h) (Pure.pure (.cells b n))
      Owner.ofPointer id os w := by
  refine Ends.bind (hact.mono (fun _ _ => id) fun e h' hs => hs.mono .inr) ?_
  exact fun _ h' st' => ends_pure ⟨w, List.prefix_rfl, st', rfl⟩

theorem mirrors_copy (st : Stage l h os w) {p : Pointer} (hp : Owner.Keeps os p) :
    Mirrors l r may (p.copy h) (Pure.pure p) Owner.ofPointer id os w := by
  cases p with
  | null => exact Mirrors.done (a := .null) (st.reown (zero_add os).symm) rfl rfl
  | cells b n =>
    refine mirrors_of_taken ((st.ends_copyRef ?_).mono (fun _ _ => And.right) fun _ _ => id)
    exact Ledger.mem_refs_of_owned (hp b n rfl)

theorem mirrors_bind (st : Stage l h os w) {p : Pointer} (hp : Owner.Keeps os p) :
    Mirrors l r may (p.bind h) (Pure.pure p) Owner.ofPointer id os w := by
  cases p with
  | null => exact Mirrors.done (a := .null) (st.reown (zero_add os).symm) rfl rfl
  | cells b n => exact mirrors_of_taken (st.ends_retain (hp b n rfl))

/-- A reference to a block is taken, whatever pointer there is to it. -/
theorem mirrors_retain (st : Stage l h os w) {b n : Nat} (hr : .block b n ∈ Owner.refs os) :
    Mirrors l r may (Heap.retain b h) (Pure.pure ()) (fun _ => {.ref (.block b n)}) id os w :=
  (st.ends_retain hr).mono (fun _ _ st' => ⟨w, List.prefix_rfl, st', rfl⟩)
    fun _ _ hs => hs.mono .inr

/-! ## Copies of values -/

theorem mirrors_copyValue (st : Stage l h os w) {v : V} (hv : Sourced os v) :
    Mirrors l r may (Heap.copy v h) (Pure.pure ()) (fun _ => {.value .caller v}) id os w :=
  (st.ends_copy hv).mono (fun _ _ st' => ⟨w, List.prefix_rfl, st', rfl⟩)
    fun _ _ hs => hs.mono .inr

theorem mirrors_acquire (st : Stage l h os w) {v : V} (hv : Sourced os v) (holder : Holder) :
    Mirrors l r may (Heap.acquire holder v h) (Pure.pure ()) (fun _ => {.value holder v}) id os w :=
  (st.ends_acquire hv holder).mono (fun _ _ st' => ⟨w, List.prefix_rfl, st', rfl⟩)
    fun _ _ hs => hs.mono .inr

/-! ## Reading -/

/-- Behind an owned reference there is an entry for each cell. -/
theorem Stage.exists_entry (st : Stage l h os w) {b n : Nat} (hr : .block b n ∈ Owner.refs os) :
    ∃ vs, w[b]? = some vs ∧ vs.length = n ∧ 0 < n := by
  obtain ⟨block, hb, rfl⟩ := st.exists_block (Ledger.mem_refs_of_owned hr)
  exact ⟨block.contents, st.recorded_now.contents b block hb, block.length_contents,
    Nat.succ_pos _⟩

theorem mirrors_read (st : Stage l h os w) {b n i : Nat} (hr : .block b n ∈ Owner.refs os)
    (hi : i < n) :
    Mirrors l r may (Heap.read b i h) (Plan.read b i) (fun v => {.value .caller v}) face os w := by
  obtain ⟨vs, hvs, hlength, -⟩ := st.exists_entry hr
  refine (st.ends_read hr hi).mono ?_ fun e h' hs => hs.mono .inr
  rintro v h' ⟨rfl, st'⟩
  refine ⟨w, List.prefix_rfl, st', ?_⟩
  rw [← Written.entry_cells hvs (hlength ▸ hi)]
  rfl

theorem mirrors_get (st : Stage l h os w) {p : Pointer} (hp : Owner.Keeps os p) :
    Mirrors l r may (p.get h) (Plan.get p) (fun v => {.value .caller v}) face os w := by
  refine Mirrors.checked_bind st fun b hb => ?_
  obtain ⟨n, rfl⟩ := Pointer.scalar?_eq_ok hb
  obtain ⟨-, -, -, hn⟩ := st.exists_entry (hp b n rfl)
  exact mirrors_read st (hp b n rfl) hn

theorem mirrors_getAt (st : Stage l h os w) {p : Pointer} (hp : Owner.Keeps os p) (i : Nat) :
    Mirrors l r may (p.getAt i h) (Plan.getAt p i) (fun v => {.value .caller v}) face os w := by
  refine Mirrors.checked_bind st fun b hb => ?_
  obtain ⟨n, rfl, hi⟩ := Pointer.slot?_eq_ok hb
  exact mirrors_read st (hp b n rfl) hi

/-- Reading some cells of a block, after others. -/
theorem mirrors_readOn {b n : Nat} (k i : Nat) (got : List V) (hk : i + k = n)
    (hr : .block b n ∈ Owner.refs os) (st : Stage l h (Owner.ofValues .caller got + os) w) :
    Mirrors l r may (Pointer.readOn b k i got h)
      (Plan.find fun p => .ok (got.reverse.map face ++ (p.cells.entries b).drop i))
      (Owner.ofValues .caller) (List.map face) os w := by
  -- what has been read so far is owned in the meantime
  induction k generalizing i got h w with
  | zero =>
    have hr' := Owner.mem_refs_add (Owner.ofValues .caller got) hr
    obtain ⟨vs, hvs, hlength, -⟩ := st.exists_entry hr'
    refine Mirrors.done (a := got.reverse) (st.reown ?_) rfl (Plan.find_of_ok ?_)
    · rw [Owner.ofValues_reverse]
    · rw [Written.entries_cells hvs, List.drop_eq_nil_of_le, List.append_nil]
      rw [facesOf, List.length_map]
      omega
  | succ k ih =>
    have hr' := Owner.mem_refs_add (Owner.ofValues .caller got) hr
    obtain ⟨vs, hvs, hlength, -⟩ := st.exists_entry hr'
    have hi : i < n := by omega
    have hplan : w.cells.entries b = facesOf vs := Written.entries_cells hvs
    -- the next entry, and then those after it
    let rest (d : Datum) : Plan (List Datum) :=
      Plan.find fun p => .ok (got.reverse.map face ++ [d] ++ (p.cells.entries b).drop (i + 1))
    have hread : Mirrors l r may (Pointer.readOn b (k + 1) i got h) (Plan.read b i >>= rest)
        (Owner.ofValues .caller) (List.map face) os w := by
      refine ((mirrors_read st hr' hi).orElseUndo fun h' w' st' => ?_).bind fun v h' w' st' => ?_
      · rw [← Owner.ofValues_reverse] at st'
        exact st'.dropAll
      · have hih := ih (i + 1) (v :: got) (by omega) st'
        simpa [rest] using hih
    refine hread.of_plan ?_
    have hlt : i < (w.cells.entries b).length := by
      rw [hplan, facesOf, List.length_map]
      omega
    have hentry : Plan.read b i ⟨r, w.cells⟩ = .ok (w.cells.entry b i, ⟨r, w.cells⟩) := rfl
    rw [Plan.bind_of_ok hentry]
    simp only [Plan.find, Cells.drop_entries hlt, rest, List.append_assoc, List.singleton_append]

theorem mirrors_toList (st : Stage l h os w) {p : Pointer} (hp : Owner.Keeps os p) :
    Mirrors l r may (p.toList h) (Plan.toList p) (Owner.ofValues .caller) (List.map face) os w := by
  refine Mirrors.checked_bind st fun b hb => ?_
  obtain ⟨n, rfl⟩ := Pointer.block?_eq_ok hb
  exact mirrors_readOn n 0 [] (Nat.zero_add n) (hp b n rfl) (st.reown (zero_add os).symm)

/-! ## Making blocks -/

/-- Storing a value in the cell that a check leads to. -/
theorem ends_storeChecked (st : Stage l h os w) {x : Except HeapError BlockId} {i : Nat}
    (hx : ∀ b, x = .ok b → ∃ n, .block b n ∈ Owner.refs os ∧ i < n) {v : V} (hv : Sourced os v) :
    Ends ((do Heap.store (← Pointer.checked x) i v : Action V Unit) h)
      (fun _ h' => ∃ b, x = .ok b ∧ Stage l h' os (w.put b i (some v)))
      (Stops l os w fun f => (∃ e, x = .error e ∧ f = .error e) ∨ l.Blames (.fault f)) := by
  cases x with
  | error e => exact ends_throw ⟨w, List.prefix_rfl, st, .inl ⟨e, rfl, rfl⟩⟩
  | ok b =>
    obtain ⟨n, hr, hi⟩ := hx b rfl
    refine (st.ends_store hr hi hv).mono (fun _ h' st' => ⟨b, rfl, st'⟩) ?_
    exact fun f h' hs => hs.mono .inr

theorem ends_setAt (st : Stage l h os w) {p : Pointer} (hp : Owner.Keeps os p) (i : Nat) {v : V}
    (hv : Sourced os v) :
    Ends (p.setAt i v h)
      (fun _ h' => ∃ b, p.slot? i = .ok b ∧ Stage l h' os (w.put b i (some v)))
      (Stops l os w fun f => (∃ e, p.slot? i = .error e ∧ f = .error e) ∨
        l.Blames (.fault f)) := by
  refine ends_storeChecked st (fun b hb => ?_) hv
  obtain ⟨n, rfl, hi⟩ := Pointer.slot?_eq_ok hb
  exact ⟨n, hp b n rfl, hi⟩

theorem ends_setScalar (st : Stage l h os w) {p : Pointer} (hp : Owner.Keeps os p) {v : V}
    (hv : Sourced os v) :
    Ends ((do Heap.store (← Pointer.checked p.scalar?) 0 v : Action V Unit) h)
      (fun _ h' => ∃ b, p.scalar? = .ok b ∧ Stage l h' os (w.put b 0 (some v)))
      (Stops l os w fun f => (∃ e, p.scalar? = .error e ∧ f = .error e) ∨
        l.Blames (.fault f)) := by
  refine ends_storeChecked st (fun b hb => ?_) hv
  obtain ⟨n, rfl⟩ := Pointer.scalar?_eq_ok hb
  obtain ⟨-, -, -, hn⟩ := st.exists_entry (hp b n rfl)
  exact ⟨n, hp b n rfl, hn⟩

/-- Filling the cells of the block that was made last, some of which are filled already. -/
theorem ends_fill {n : Nat} (vs filled : List V) (hn : filled.length + vs.length = n)
    (hr : .block w.length n ∈ Owner.refs os) (hvs : ∀ v ∈ vs, Sourced os v)
    (st : Stage l h os (w ++ [filled.map some ++ List.replicate vs.length none])) :
    Ends ((Pointer.cells w.length n).fill filled.length vs h)
      (fun _ h' => Stage l h' os (w ++ [(filled ++ vs).map some]))
      (Stops l os w fun f => l.Blames (.fault f)) := by
  -- filled cells move to the front of the entry, one with each step
  induction vs generalizing filled h with
  | nil =>
    refine ends_pure ?_
    simpa using st
  | cons v vs ih =>
    have hp : Owner.Keeps os (.cells w.length n) := by
      intro b m heq
      cases heq
      exact hr
    have hslot : (Pointer.cells w.length n).slot? filled.length = .ok w.length :=
      if_pos (by simp only [Pointer.size, ← hn, List.length_cons]; omega)
    refine Ends.bind ((ends_setAt st hp filled.length (hvs v List.mem_cons_self)).mono
      (Q := fun _ h' => Stage l h' os
        (w ++ [(filled ++ [v]).map some ++ List.replicate vs.length none])) ?_ ?_) ?_
    · rintro - h' ⟨b, hb, st'⟩
      rw [hslot] at hb
      cases hb
      have hput := Written.put_last w (filled.map some) (List.replicate vs.length none) (some v)
      rw [List.length_map] at hput
      rw [List.length_cons, List.replicate_succ, hput] at st'
      simpa using st'
    · rintro f h' ⟨w', hw, st', hcause⟩
      refine ⟨w', (List.prefix_append w _).trans hw, st', hcause.resolve_left ?_⟩
      rintro ⟨e, hb, -⟩
      rw [hslot] at hb
      cases hb
    · intro _ h' st'
      have hih := ih (filled ++ [v]) (by simpa [Nat.add_assoc, Nat.add_comm 1] using hn)
        (fun u hu => hvs u (List.mem_cons_of_mem v hu)) st'
      simpa using hih

/-- No cells are made because none are asked for, or for want of room. -/
theorem refusal_cases {n : Nat} {f : Fault}
    (hf : f = .error (if n = 0 then .emptyCollection else .allocation n)) :
    n = 0 ∧ f = .error .emptyCollection ∨ (failure f).IsRefusal := by
  by_cases hzero : n = 0
  · rw [if_pos hzero] at hf
    exact .inl ⟨hzero, hf⟩
  · rw [if_neg hzero] at hf
    subst hf
    exact .inr trivial

/-- A block is made and then filled; if that fails, it is given back. -/
theorem mirrors_made (st : Stage l h os w) {n : Nat} {vs : List V} (hn : vs.length = n)
    (hmay : may) {filling : BlockId → Action V Unit}
    (hfilling : ∀ h', 0 < n →
      Stage l h' ({.ref (.block w.length n)} + os) (w ++ [List.replicate n none]) →
      Ends (filling w.length h')
        (fun _ h'' => Stage l h'' ({.ref (.block w.length n)} + os) (w ++ [vs.map some]))
        (Stops l ({.ref (.block w.length n)} + os) w fun f => l.Blames (.fault f))) :
    Mirrors l r may
      ((do
        let b ← Heap.allocate n
        (filling b).orElseUndo (·.dropPointer (.cells b n))
        Pure.pure (.cells b n) : Action V Pointer) h)
      (Plan.fresh (vs.map face)) Owner.ofPointer id os w := by
  refine Ends.bind ((st.ends_allocate n).mono (fun _ _ => id) ?_) ?_
  · rintro f h' hs
    refine hs.mono fun hf => .inl ?_
    rcases refusal_cases hf with ⟨rfl, rfl⟩ | hrefusal
    · rw [List.eq_nil_of_length_eq_zero hn]
      exact .inl rfl
    · exact .inr ⟨hmay, hrefusal⟩
  · rintro b h' ⟨hpos, rfl, st'⟩
    refine Ends.bind (Ends.orElseUndo (hfilling h' hpos st') ?_) ?_
    · rintro f h'' ⟨w', hw, st'', hcause⟩
      exact ⟨w', hw, st''.dropPointer, .inr hcause⟩
    · intro _ h'' st''
      refine ends_pure ⟨_, List.prefix_append w _, st'', ?_⟩
      have hne : vs.map face ≠ [] := by
        rw [← List.length_pos_iff, List.length_map, hn]
        exact hpos
      rw [Plan.fresh_of_ne_nil hne, Written.cells_append, Written.length_cells, List.length_map, hn]
      simp [Written.cells, facesOf]

theorem mirrors_allocate (st : Stage l h os w) {v : V} (hv : Sourced os v) (hmay : may) :
    Mirrors l r may (Pointer.allocate v h) (Plan.fresh [face v]) Owner.ofPointer id os w := by
  have hlength : [v].length = 1 := rfl
  refine mirrors_made st hlength hmay fun h' _ st' => ?_
  have hr : .block w.length 1 ∈ Owner.refs ({.ref (.block w.length 1)} + os) := by
    rw [Owner.refs_add]
    exact Multiset.mem_add.mpr (.inl (Multiset.mem_singleton_self _))
  refine (st'.ends_store hr Nat.one_pos hv.add).mono ?_ ?_
  · intro _ h'' st''
    have hput := Written.put_last w [] [] (some v)
    exact hput ▸ st''
  · rintro f h'' ⟨w', hw, st'', hcause⟩
    exact ⟨w', (List.prefix_append w _).trans hw, st'', hcause⟩

theorem mirrors_allocateCollection (st : Stage l h os w) {filling : Filling V}
    (hvs : ∀ v ∈ filling.contents, Sourced os v) (hmay : may) :
    Mirrors l r may (Pointer.allocateCollection filling h)
      (Plan.fresh (filling.contents.map face)) Owner.ofPointer id os w := by
  have hn := filling.length_contents
  refine mirrors_made st hn hmay fun h' _ st' => ?_
  have hr : .block w.length filling.size ∈
      Owner.refs ({.ref (.block w.length filling.size)} + os) := by
    rw [Owner.refs_add]
    exact Multiset.mem_add.mpr (.inl (Multiset.mem_singleton_self _))
  have hfill := ends_fill (h := h') filling.contents [] ((Nat.zero_add _).trans hn) hr
    (fun v hv => (hvs v hv).add) (by rw [hn]; exact st')
  exact hfill

/-! ## Pointers from addresses -/

/-- The pointer that an address stands for. -/
def Address.pointer (a : Address) (n : Nat) : Pointer :=
  match a with
  | .block b => .cells b n
  | .sentinel | .zero => .null

theorem mirrors_rebuild (st : Stage l h os w) {a : Address} {n : Nat}
    (ha : Owner.Keeps os (a.pointer n)) (hcount : ∀ b, a = .block b → 0 < h.count b) :
    Mirrors l r may (Pointer.rebuild a n h) (Pure.pure (a.pointer n)) Owner.ofPointer id os w := by
  simp only [Pointer.rebuild]
  refine Mirrors.update_bind ?_
  -- that the flag is lost does not concern the counts
  have hflag : ∃ h', (if h.stable then ({ h with stable := false }).log .unstable else h) = h' ∧
      Stage l h' os w ∧ h'.count = h.count := by
    split
    · rename_i hstable
      exact ⟨_, rfl, st.step (.unsettle hstable), rfl⟩
    · exact ⟨h, rfl, st, rfl⟩
  obtain ⟨h', hh', st', hcount'⟩ := hflag
  rw [hh']
  cases a with
  | sentinel => exact Mirrors.done (a := .null) (st'.reown (zero_add os).symm) rfl rfl
  | zero => exact Mirrors.done (a := .null) (st'.reown (zero_add os).symm) rfl rfl
  | block b =>
    have hpos : 0 < h'.count b := hcount' ▸ hcount b rfl
    refine Ends.bind ((st'.ends_retainUnchecked (ha b n rfl) hpos).mono (fun _ _ => id)
      fun e _ hs => hs.mono .inr) fun _ h'' st'' => ?_
    exact ends_of_ok (a := .cells b n) rfl ⟨w, List.prefix_rfl, st''.step (.note trivial), rfl⟩

/-! ## Writing -/

/-- In place of a null pointer there is a fresh cell. -/
theorem ends_upgrade (st : Stage l h os w) :
    Ends (Pointer.null.upgrade h)
      (fun q h' => q = .cells w.length 1 ∧
        Stage l h' (Owner.ofPointer (.cells w.length 1) + os) (w ++ [[none]]))
      (Stops l os w fun f => f = .error (.allocation 1)) := by
  refine (st.ends_allocate 1).bind ?_
  rintro b h' ⟨-, rfl, st'⟩
  exact ends_of_ok (a := .cells w.length 1) rfl ⟨rfl, st'.step (.note trivial)⟩

/-- A write through a pointer, which belongs to none of the other owners. If it fails, the pointer
is what it was, unless a block is to blame that the value points to: then a null pointer may have
got its cell before. -/
theorem ends_set {p : Pointer} (st : Stage l h (Owner.ofPointer p + os) w) {v : V}
    (hv : Sourced os v) (hmay : may) :
    Ends ((p.set v h).1.2, (p.set v h).2)
      (fun _ h' => ∃ w', Stage l h' (Owner.ofPointer (p.set v h).1.1 + os) w' ∧
        Plan.set p (face v) ⟨r, w.cells⟩ = .ok ((p.set v h).1.1, ⟨r, Written.cells w'⟩))
      (fun f h' => ∃ w', w <+: w' ∧ Stage l h' (Owner.ofPointer (p.set v h).1.1 + os) w' ∧
        ((p.set v h).1.1 = p ∧
            (Plan.set p (face v) ⟨r, w.cells⟩ = .error (.fault f) ∨ may ∧ (failure f).IsRefusal) ∨
          l.Blames (.fault f) ∧ ((p.set v h).1.1 = p ∨
            p = .null ∧ (p.set v h).1.1 = .cells w.length 1))) := by
  cases p with
  | cells b n =>
    have hp : Owner.Keeps (Owner.ofPointer (.cells b n) + os) (.cells b n) :=
      Owner.keeps_of_mem (Multiset.le_add_right _ _)
    refine (ends_setScalar st hp hv.add).mono ?_ ?_
    · rintro - h' ⟨c, hc, st'⟩
      refine ⟨_, st', ?_⟩
      rw [Written.cells_put, Plan.set, hc]
      rfl
    · rintro f h' ⟨w', hw, st', ⟨e, hc, rfl⟩ | hblames⟩
      · refine ⟨w', hw, st', .inl ⟨rfl, .inl ?_⟩⟩
        rw [Plan.set, hc]
        rfl
      · exact ⟨w', hw, st', .inr ⟨hblames, .inl rfl⟩⟩
  | null =>
    have hup := ends_upgrade (st.reown (zero_add os))
    rw [Pointer.set]
    rcases hrun : Pointer.null.upgrade h with ⟨f | q, h'⟩
    · rw [hrun] at hup
      obtain ⟨w', hw, st', rfl⟩ := hup
      exact ⟨w', hw, st'.reown (zero_add os).symm, .inl ⟨rfl, .inr ⟨hmay, trivial⟩⟩⟩
    · rw [hrun] at hup
      obtain ⟨rfl, st'⟩ := hup
      have hp : Owner.Keeps (Owner.ofPointer (.cells w.length 1) + os) (.cells w.length 1) :=
        Owner.keeps_of_mem (Multiset.le_add_right _ _)
      refine (ends_setScalar st' hp hv.add).mono ?_ ?_
      · -- making the cell and writing to it makes an entry that is written already
        rintro - h'' ⟨c, hc, st''⟩
        cases hc
        have hput : Written.put (w ++ [[none]]) w.length 0 (some v) = w ++ [[some v]] :=
          Written.put_last w [] [] (some v)
        rw [hput] at st''
        refine ⟨_, st'', ?_⟩
        rw [Written.cells_append, Plan.set, Plan.fresh_of_ne_nil (List.cons_ne_nil _ _),
          Written.length_cells]
        rfl
      · -- a cell that has just been made can be written to, but the value may not be copied
        rintro f h'' ⟨w', hw, st'', ⟨e, hc, -⟩ | hblames⟩
        · cases hc
        · exact ⟨w', (List.prefix_append w _).trans hw, st'', .inr ⟨hblames, .inr ⟨rfl, rfl⟩⟩⟩

theorem ends_swap (st : Stage l h os w) {p q : Pointer} (hp : Owner.Keeps os p)
    (hq : Owner.Keeps os q) :
    Ends (p.swap q h)
      (fun _ h' => ∃ b c, p.scalar? = .ok b ∧ q.scalar? = .ok c ∧
        Stage l h' os ((w.put b 0 (w.at? c 0)).put c 0 (w.at? b 0)))
      (Stops l os w fun f =>
        (∃ e, p.scalar? = .error e ∧ f = .error e) ∨
          ∃ b e, p.scalar? = .ok b ∧ q.scalar? = .error e ∧ f = .error e) := by
  simp only [Pointer.swap, Pointer.checked]
  rcases hb : p.scalar? with e | b
  · exact ends_throw ⟨w, List.prefix_rfl, st, .inl ⟨e, rfl, rfl⟩⟩
  · rcases hc : q.scalar? with e | c
    · exact ends_throw ⟨w, List.prefix_rfl, st, .inr ⟨b, e, rfl, rfl, rfl⟩⟩
    · obtain ⟨n, rfl⟩ := Pointer.scalar?_eq_ok hb
      obtain ⟨m, rfl⟩ := Pointer.scalar?_eq_ok hc
      obtain ⟨-, -, -, hn⟩ := st.exists_entry (hp b n rfl)
      obtain ⟨-, -, -, hm⟩ := st.exists_entry (hq c m rfl)
      exact ends_update ⟨b, c, rfl, rfl, st.swap (hp b n rfl) hn (hq c m rfl) hm⟩

end CountedCells

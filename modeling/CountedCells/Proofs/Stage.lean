import CountedCells.Proofs.Ends
import CountedCells.Proofs.Upkeep
import CountedCells.Proofs.Yield

/-!
# Stages: operations on the heap are made of moves

`Stage l h os w` says that the ledger `l` has come, move by move, to the heap `h` with the outside
owners `os`. What an operation does is told by the stage it ends in: which owners there are then,
and what has been written. Owners that an operation does not mention stay what they are, so every
statement here is about any `os` besides.

An operation on a heap **stops** when it ends early. Then all owners are what they were, and the
cause is one that can be told beforehand, or else a block is to blame (`Ledger.Blames`): one that
had no count from the beginning, or one whose count cannot be raised any more. In particular, as
long as the counts are exact, no block is found expired, and nothing is abandoned unless a block
has as many owners as a count can tell.
-/

namespace CountedCells

open Attempt

variable {V : Type} [Host V] [Faced V]

/-- A ledger has come to a heap with these owners outside. -/
structure Stage (l : Ledger V) (h : Heap V) (os : Multiset (Owner V)) (w : Written V) : Prop where
  /-- it was sound -/
  sound : l.Sound
  /-- it told what the cells hold -/
  recorded : l.heap.Recorded l.written
  /-- it went on by moves -/
  moves : Moves l ⟨h, os, w⟩

/-- An operation ended early: all owners are what they were, and nothing that was written was
changed. `cause` says why. -/
def Stops {ε : Type} (l : Ledger V) (os : Multiset (Owner V)) (w : Written V) (cause : ε → Prop)
    (e : ε) (h : Heap V) : Prop :=
  ∃ w', w <+: w' ∧ Stage l h os w' ∧ cause e

omit [Faced V] in
/-- The failure is that a block has no count, and it has none in this ledger. -/
def Ledger.Expires (l : Ledger V) (f : Failure) : Prop :=
  ∃ b n, l.heap.shape? b = some (0, n) ∧
    (f = .fault (.abandoned b) ∨ f = .fault (.error (.expired (.block b))))

/-- The failure is that a block has the highest count that there is. -/
def Failure.IsOverflow : Failure → Prop
  | .fault (.overflow _) => True
  | _ => False

omit [Faced V] in
/-- A block is to blame for the failure. -/
def Ledger.Blames (l : Ledger V) (f : Failure) : Prop := l.Expires f ∨ f.IsOverflow

omit [Faced V] in
/-- With exact counts, a block is only to blame for having too many owners. -/
theorem Ledger.Exact.isOverflow {l : Ledger V} (he : l.Exact) {f : Failure} (hf : l.Blames f) :
    f.IsOverflow := by
  refine hf.resolve_left ?_
  rintro ⟨b, n, hb, -⟩
  exact absurd (he b 0 n hb).2 (Nat.lt_irrefl 0)

/-- The value can be copied on behalf of the owners: one of them has it, or it is a pointer that
one of them has. -/
def Sourced (os : Multiset (Owner V)) (v : V) : Prop :=
  (∃ holder, .value holder v ∈ os) ∨
    ∀ r, Host.ref v = some r → (∃ b n, r = .block b n) ∧ r ∈ Owner.refs os

theorem Stops.mono {ε : Type} {l : Ledger V} {os : Multiset (Owner V)} {w : Written V}
    {cause cause' : ε → Prop} {e : ε} {h : Heap V} (hs : Stops l os w cause e h)
    (hcause : cause e → cause' e) : Stops l os w cause' e h := by
  obtain ⟨w', hw, hstage, hc⟩ := hs
  exact ⟨w', hw, hstage, hcause hc⟩

omit [Faced V] in
theorem Sourced.add {os os' : Multiset (Owner V)} {v : V} (hv : Sourced os v) :
    Sourced (os' + os) v := by
  rcases hv with ⟨holder, hv⟩ | hr
  · exact .inl ⟨holder, Multiset.mem_add.mpr (.inr hv)⟩
  · exact .inr fun r hrv => ⟨(hr r hrv).1, Owner.mem_refs_add _ (hr r hrv).2⟩

namespace Stage

variable {l : Ledger V} {h h' : Heap V} {os os' : Multiset (Owner V)} {w w' : Written V}

/-- Where nothing has happened yet. -/
theorem start (hl : Ledger.Sound ⟨h, os, w⟩) (hw : h.Recorded w) : Stage ⟨h, os, w⟩ h os w :=
  ⟨hl, hw, .refl⟩

theorem step (st : Stage l h os w) (m : Move ⟨h, os, w⟩ ⟨h', os', w'⟩) : Stage l h' os' w' :=
  ⟨st.sound, st.recorded, st.moves.tail m⟩

/-- The owners may be told in another order. -/
theorem reown (st : Stage l h os w) (hos : os = os') : Stage l h os' w := hos ▸ st

theorem sound_now (st : Stage l h os w) : Ledger.Sound ⟨h, os, w⟩ := Moves.sound st.moves st.sound

theorem recorded_now (st : Stage l h os w) : h.Recorded w :=
  Moves.keeps Heap.kept_recorded st.moves st.sound st.recorded

theorem exact_now (st : Stage l h os w) (he : l.Exact) : Ledger.Exact ⟨h, os, w⟩ :=
  Moves.tally countRule_exactly st.moves st.sound he

/-- Behind an owned reference there is a block. -/
theorem exists_block (st : Stage l h os w) {b n : Nat}
    (hr : .block b n ∈ Ledger.refs ⟨h, os, w⟩) :
    ∃ block, h.block? b = some block ∧ block.size = n := by
  obtain ⟨c, hc⟩ := st.sound_now.anchored b n hr
  obtain ⟨block, hb, -, hn⟩ := Heap.exists_block_of_shape? hc
  exact ⟨block, hb, hn⟩

end Stage

namespace Stage

variable {l : Ledger V} {h : Heap V} {os : Multiset (Owner V)} {w : Written V}

/-! ## Giving back -/

/-- References are given back. -/
theorem yields {h' : Heap V} {os' : Multiset (Owner V)} {w' : Written V} (st : Stage l h os w)
    (hy : Yields ⟨h, os, w⟩ ⟨h', os', w'⟩) : Stage l h' os' w' :=
  ⟨st.sound, st.recorded, st.moves.trans hy.moves⟩

theorem disown {holder : Holder} {v : V} (st : Stage l h ({.value holder v} + os) w) :
    Stage l (h.disown holder v) os w :=
  st.yields .disown

theorem drop {v : V} (st : Stage l h ({.value .caller v} + os) w) : Stage l (h.drop v) os w :=
  st.yields .drop

theorem dropAll {vs : List V} (st : Stage l h (Owner.ofValues .caller vs + os) w) :
    Stage l (h.dropAll vs) os w :=
  st.yields .dropAll

theorem dropPointer {p : Pointer} (st : Stage l h (Owner.ofPointer p + os) w) :
    Stage l (h.dropPointer p) os w :=
  st.yields .dropPointer

theorem dropPointers {ps : List Pointer} (st : Stage l h (Owner.ofPointers ps + os) w) :
    Stage l (ps.foldl Heap.dropPointer h) os w :=
  st.yields .dropPointers

end Stage

/-! ## Copying -/

omit [Faced V] in
theorem Ledger.mem_refs_of_owned {h : Heap V} {os : Multiset (Owner V)} {w : Written V} {r : Ref}
    (hr : r ∈ Owner.refs os) : r ∈ Ledger.refs ⟨h, os, w⟩ :=
  Multiset.mem_add.mpr (.inr hr)

theorem Backed.take {h : Heap V} {v : V} (hv : Backed h v) (r : Ref) : Backed (h.take r) v := by
  intro p hp
  obtain ⟨payload, hpayload, hchildren⟩ := hv p hp
  cases r with
  | block b n => exact ⟨payload, hpayload, hchildren⟩
  | payload q =>
    have hget : (h.take (.payload q)).payloads[p]? =
        some (if q = p then { payload with shares := h.shares q + 1 } else payload) := by
      rw [Heap.take, Heap.setShares, List.getElem?_modify, hpayload]
      split <;> rfl
    refine ⟨_, hget, ?_⟩
    split <;> exact hchildren

/-- What can be copied leads somewhere, and its parts are there. -/
theorem Sourced.grounded {h : Heap V} {os : Multiset (Owner V)} {w : Written V}
    (hl : Ledger.Sound ⟨h, os, w⟩) {v : V} (hv : Sourced os v) :
    (∀ r, Host.ref v = some r → r ∈ Ledger.refs ⟨h, os, w⟩) ∧ Backed h v := by
  rcases hv with ⟨holder, hv⟩ | hr
  · exact ⟨fun r => Ledger.mem_refs_of_has (.inr ⟨holder, hv⟩), hl.backed v (.inr ⟨holder, hv⟩)⟩
  · refine ⟨fun r hrv => Ledger.mem_refs_of_owned (hr r hrv).2, fun p hp => ?_⟩
    obtain ⟨b, n, heq⟩ := (hr _ hp).1
    cases heq

namespace Stage

variable {l : Ledger V} {h : Heap V} {os : Multiset (Owner V)} {w : Written V}

/-- Nothing but a count of zero prevents a copy, and with exact counts nothing does. -/
theorem count_pos (st : Stage l h os w) (he : l.Exact) {b n : Nat}
    (hr : .block b n ∈ Ledger.refs ⟨h, os, w⟩) : 0 < h.count b := by
  obtain ⟨block, hb, -⟩ := st.exists_block hr
  rw [Heap.count_eq hb]
  exact (st.exact_now he b _ _ (Heap.shape?_eq hb)).2

/-- An owned reference has a first cell. -/
theorem touch_eq (st : Stage l h os w) {b n i : Nat} (hr : .block b n ∈ Ledger.refs ⟨h, os, w⟩)
    (hi : i < n ∨ i = 0) : h.touch b i = h := by
  obtain ⟨block, hb, rfl⟩ := st.exists_block hr
  refine Heap.touch_eq hb ?_
  rcases hi with hi | rfl
  · exact hi
  · exact Nat.succ_pos _

/-- Where there is a count, a reference is taken by raising it, unless it is the highest. -/
theorem ends_raise (st : Stage l h os w) {b n : Nat} (hr : .block b n ∈ Ledger.refs ⟨h, os, w⟩)
    (hc : 0 < h.count b) :
    Ends (Heap.raise b h)
      (fun _ h' => h' = h.take (.block b n) ∧ Stage l h' ({.ref (.block b n)} + os) w)
      (Stops l os w fun f => l.Blames (.fault f)) := by
  rcases Nat.lt_or_ge (h.count b + 1) Config.countRange with hroom | hfull
  · refine ends_of_ok (Heap.raise_of_lt hroom) ⟨rfl, st.step (.take hr ?_ ?_)⟩
    · rintro b' n' ⟨⟩
      exact hc
    · rintro b' n' ⟨⟩
      exact hroom
  · exact ends_of_error (Heap.raise_of_crowded hfull) ⟨w, List.prefix_rfl, st, .inr trivial⟩

/-- Where there is no count, nothing is taken, and there was none from the beginning. -/
theorem ends_retainOr (st : Stage l h os w) {b n : Nat} (hr : .block b n ∈ Ledger.refs ⟨h, os, w⟩)
    {e : Fault} (he : e = .abandoned b ∨ e = .error (.expired (.block b))) :
    Ends (Heap.retainOr e b h)
      (fun _ h' => h' = h.take (.block b n) ∧ Stage l h' ({.ref (.block b n)} + os) w)
      (Stops l os w fun f => l.Blames (.fault f)) := by
  rcases Nat.eq_zero_or_pos (h.count b) with hc | hc
  · refine ends_of_error (Heap.retainOr_of_zero hc e) ?_
    rw [st.touch_eq hr (.inr rfl)]
    obtain ⟨block, hb, -⟩ := st.exists_block hr
    have hnow : h.shape? b = some (0, block.size) := by
      rw [Heap.shape?_eq hb, ← Heap.count_eq hb, hc]
    refine ⟨w, List.prefix_rfl, st, .inl ⟨b, block.size, ?_, ?_⟩⟩
    · exact (Moves.expired_iff st.moves st.sound b _).mp hnow
    · exact he.imp (congrArg _) (congrArg _)
  · rw [Heap.retainOr_of_pos hc]
    exact st.ends_raise hr hc

theorem ends_copyRef (st : Stage l h os w) {r : Ref} (hr : r ∈ Ledger.refs ⟨h, os, w⟩) :
    Ends (Heap.copyRef r h) (fun _ h' => h' = h.take r ∧ Stage l h' ({.ref r} + os) w)
      (Stops l os w fun f => l.Blames (.fault f)) := by
  cases r with
  | block b n => exact st.ends_retainOr hr (.inl rfl)
  | payload p =>
    have hok : Heap.copyRef (.payload p) h = (.ok (), h.take (.payload p)) := rfl
    exact ends_of_ok hok ⟨rfl, st.step (.take hr (fun _ _ => Ref.noConfusion)
      fun _ _ => Ref.noConfusion)⟩

/-- A copy that is given a value which leads somewhere. -/
theorem ends_copy_of_grounded (st : Stage l h os w) {v : V}
    (hr : ∀ r, Host.ref v = some r → r ∈ Ledger.refs ⟨h, os, w⟩) (hv : Backed h v) :
    Ends (Heap.copy v h) (fun _ h' => Stage l h' ({.value .caller v} + os) w)
      (Stops l os w fun f => l.Blames (.fault f)) := by
  rw [Heap.copy]
  rcases href : Host.ref v with - | r
  · refine ends_pure ((st.reown ?_).step (.adopt hv))
    rw [Owner.ofRef, href]
    exact (zero_add os).symm
  · refine (st.ends_copyRef (hr r href)).mono ?_ fun _ _ => id
    rintro - h' ⟨rfl, st'⟩
    refine (st'.reown ?_).step (.adopt (hv.take r))
    rw [Owner.ofRef, href]
    rfl

theorem ends_copy (st : Stage l h os w) {v : V} (hv : Sourced os v) :
    Ends (Heap.copy v h) (fun _ h' => Stage l h' ({.value .caller v} + os) w)
      (Stops l os w fun f => l.Blames (.fault f)) := by
  obtain ⟨hr, hv⟩ := hv.grounded st.sound_now
  exact st.ends_copy_of_grounded hr hv

/-- A copy is reported to whoever holds it. -/
theorem report {v : V} (st : Stage l h ({.value .caller v} + os) w) (holder : Holder) :
    Stage l (h.log (.acquired holder v h.stats)) ({.value holder v} + os) w :=
  st.step (.report holder)

theorem ends_acquire (st : Stage l h os w) {v : V} (hv : Sourced os v) (holder : Holder) :
    Ends (Heap.acquire holder v h) (fun _ h' => Stage l h' ({.value holder v} + os) w)
      (Stops l os w fun f => l.Blames (.fault f)) :=
  (st.ends_copy hv).bind fun _ _ st' => ends_update (st'.report holder)

/-! ## Cells -/

/-- A cell of an owned block is given a value. -/
theorem replace {v : V} (st : Stage l h ({.value .cell v} + os) w) {b n i : Nat}
    (hr : .block b n ∈ Owner.refs os) (hi : i < n) :
    Stage l (Heap.replace b i v h) os (w.put b i (some v)) := by
  have hr' : .block b n ∈ Ledger.refs ⟨h, {.value .cell v} + os, w⟩ :=
    Ledger.mem_refs_of_owned (Owner.mem_refs_add _ hr)
  obtain ⟨block, hb, rfl⟩ := st.exists_block hr'
  have st' := st.step (.write hb hi)
  rw [Heap.replace]
  rcases hv : h.value? b i with - | previous
  · rw [hv] at st'
    simp only [Heap.touch_eq hb hi]
    exact st'.reown (zero_add os)
  · rw [hv] at st'
    exact st'.disown

theorem ends_store (st : Stage l h os w) {b n i : Nat} (hr : .block b n ∈ Owner.refs os)
    (hi : i < n) {v : V} (hv : Sourced os v) :
    Ends (Heap.store b i v h) (fun _ h' => Stage l h' os (w.put b i (some v)))
      (Stops l os w fun f => l.Blames (.fault f)) :=
  (st.ends_acquire hv .cell).bind fun _ _ st' => ends_update (st'.replace hr hi)

/-- A cell of an owned block is read. -/
theorem ends_read (st : Stage l h os w) {b n i : Nat} (hr : .block b n ∈ Owner.refs os)
    (hi : i < n) :
    Ends (Heap.read b i h)
      (fun v h' => v = (w.at? b i).getD default ∧ Stage l h' ({.value .caller v} + os) w)
      (Stops l os w fun f => l.Blames (.fault f)) := by
  have hr' := Ledger.mem_refs_of_owned (h := h) (w := w) hr
  obtain ⟨block, hb, rfl⟩ := st.exists_block hr'
  refine Ends.bind (R := fun _ h' => h' = h) (ends_update (Heap.touch_eq hb hi)) ?_
  rintro - h' rfl
  refine Ends.bind (R := fun o h'' => o = w.at? b i ∧ h'' = h')
    (ends_look ⟨st.recorded_now.value?_eq hb i, rfl⟩) ?_
  rintro o h'' ⟨rfl, rfl⟩
  rcases hv : w.at? b i with - | v
  · refine ends_pure ⟨rfl, (st.reown ?_).step (.adopt ?_)⟩
    · rw [Owner.ofRef, Host.ref_default]
      exact (zero_add os).symm
    · intro p hp
      rw [Host.ref_default] at hp
      cases hp
  · -- the copy is of what the cell holds, which the heap owns
    have hheld : Ledger.Has ⟨h'', os, w⟩ v := by
      rw [← st.recorded_now.value?_eq hb i, Heap.value?_eq hb, ← Block.value?_eq] at hv
      exact .inl (Heap.mem_held.mpr (.inl ⟨b, block, hb, Block.mem_stored_of_value? hv⟩))
    have hcopy := st.ends_copy_of_grounded (fun r => Ledger.mem_refs_of_has hheld)
      (st.sound_now.backed v hheld)
    refine Ends.bind (R := fun _ h' => Stage l h' ({.value .caller v} + os) w)
      (hcopy.bind fun _ _ st' => ends_update (st'.report .caller)) ?_
    intro _ _ st'
    exact ends_pure ⟨rfl, st'⟩

theorem swap (st : Stage l h os w) {b n i : Nat} (hr : .block b n ∈ Owner.refs os) (hi : i < n)
    {c m j : Nat} (hs : .block c m ∈ Owner.refs os) (hj : j < m) :
    Stage l (h.swap b i c j) os ((w.put b i (w.at? c j)).put c j (w.at? b i)) := by
  obtain ⟨block, hb, rfl⟩ := st.exists_block (Ledger.mem_refs_of_owned hr)
  obtain ⟨other, hc, rfl⟩ := st.exists_block (Ledger.mem_refs_of_owned hs)
  have st' := st.step (.swap hb hi hc hj)
  rwa [st.recorded_now.value?_eq hb, st.recorded_now.value?_eq hc] at st'

/-! ## Blocks -/

/-- A block is made, or there is a reason to refuse. -/
theorem ends_allocate (st : Stage l h os w) (n : Nat) :
    Ends (Heap.allocate n h)
      (fun b h' => 0 < n ∧ b = w.length ∧
        Stage l h' ({.ref (.block b n)} + os) (w ++ [List.replicate n none]))
      (Stops l os w fun f => f = .error (if n = 0 then .emptyCollection else .allocation n)) := by
  rcases hn : h.refusal n with - | e
  · have hok : Heap.allocate n h = (.ok h.blocks.length, h.addBlock n) := by
      rw [Heap.allocate, hn]
    refine ends_of_ok hok ⟨Heap.pos_of_refusal hn, st.recorded_now.length.symm, ?_⟩
    exact st.step (.allocate hn)
  · have herror : Heap.allocate n h = (.error (.error e), h) := by
      rw [Heap.allocate, hn]
    refine ends_of_error herror ⟨w, List.prefix_rfl, st, congrArg Fault.error ?_⟩
    exact Heap.eq_of_refusal hn

theorem ends_retain (st : Stage l h os w) {b n : Nat} (hr : .block b n ∈ Owner.refs os) :
    Ends (Heap.retain b h) (fun _ h' => Stage l h' ({.ref (.block b n)} + os) w)
      (Stops l os w fun f => l.Blames (.fault f)) :=
  (st.ends_retainOr (Ledger.mem_refs_of_owned hr) (.inr rfl)).mono (fun _ _ => And.right)
    fun _ _ => id

/-- A reference is taken without asking, where there is a count. -/
theorem ends_retainUnchecked (st : Stage l h os w) {b n : Nat} (hr : .block b n ∈ Owner.refs os)
    (hc : 0 < h.count b) :
    Ends (Heap.retainUnchecked b h) (fun _ h' => Stage l h' ({.ref (.block b n)} + os) w)
      (Stops l os w fun f => l.Blames (.fault f)) := by
  have hr' := Ledger.mem_refs_of_owned (h := h) (w := w) hr
  refine Ends.bind (R := fun _ h' => h' = h) (ends_update (st.touch_eq hr' (.inr rfl))) ?_
  rintro - h' rfl
  exact (st.ends_raise hr' hc).mono (fun _ _ => And.right) fun _ _ => id

/-- Giving back a reference either does that, or finds no count and does nothing. -/
theorem release {b n : Nat} (st : Stage l h ({.ref (.block b n)} + os) w) :
    ((h.release b n).1 = .expired ∧ (h.release b n).2 = h ∧ h.count b = 0) ∨
      ((h.release b n).1 ≠ .expired ∧ Stage l (h.release b n).2 os w) :=
  (Yields.release st.sound_now).imp_right fun ⟨hne, hy⟩ => ⟨hne, st.yields hy⟩

/-- Giving back the references of a raw block, whatever its count. -/
theorem giveBack {u : RawBlock} (st : Stage l h (Owner.ofRaw u + os) w) :
    Stage l (u.giveBack h) os w :=
  st.yields (.giveBack st.sound_now)

end Stage
end CountedCells

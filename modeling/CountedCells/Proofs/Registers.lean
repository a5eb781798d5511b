import CountedCells.Proofs.Handles
import CountedCells.Proofs.Maps

/-!
# Registers: who owns what by name

A session owns references through its registers: one for each handle, one for each variable, and
as many for each raw block as it has taken. `Registers.owners` lists these owners, and
`Registers.faces` is what the registers look like in a plain store.

All changes of registers are changes of keyed lists. `Entries.gather` adds up something over all
entries, and two equations say all there is to know about it: what a new entry adds
(`gather_put`), and that the others are what remains without it (`gather_eq`).
-/

namespace CountedCells

namespace Entries

/-! ## Something for each entry -/

section Gather

variable {κ α M : Type} [AddCommMonoid M] (f : α → M)

/-- What is gathered from all entries. -/
def gather (entries : List (κ × α)) : M := (entries.map fun e => f e.2).sum

@[simp] theorem gather_nil : gather f ([] : List (κ × α)) = 0 := rfl

@[simp] theorem gather_cons (e : κ × α) (entries : List (κ × α)) :
    gather f (e :: entries) = f e.2 + gather f entries := List.sum_cons

variable [BEq κ]

/-- A new entry counts next to those that are left without the one it takes the place of. -/
theorem gather_put (k : κ) (a : α) (entries : List (κ × α)) :
    gather f (put k a entries) = f a + gather f (remove k entries) := by
  induction entries with
  | nil => rfl
  | cons e rest ih =>
    obtain ⟨k', a'⟩ := e
    by_cases hk : (k' == k) = true
    · rw [put, if_pos hk, remove, if_pos hk, gather_cons]
    · rw [put, if_neg hk, remove, if_neg hk, gather_cons, gather_cons, ih, add_left_comm]

/-- An entry that is there counts next to the others. -/
theorem gather_eq (hsymm : ∀ k k' : κ, (k == k') = (k' == k)) (k : κ) (entries : List (κ × α)) :
    gather f entries = (entries.lookup k).elim 0 f + gather f (remove k entries) := by
  induction entries with
  | nil => exact (add_zero 0).symm
  | cons e rest ih =>
    obtain ⟨k', a'⟩ := e
    by_cases hk : (k' == k) = true
    · have hk' : (k == k') = true := (hsymm k k').trans hk
      rw [remove, if_pos hk, gather_cons, List.lookup_cons, hk']
      rfl
    · have hk' : (k == k') = false := (hsymm k k').trans (Bool.eq_false_iff.mpr hk)
      rw [remove, if_neg hk, gather_cons, gather_cons, List.lookup_cons, hk', ih, add_left_comm]

end Gather

/-! ## Which entries there are -/

section Members

variable {κ α : Type} {entries : List (κ × α)} {e : κ × α}

theorem mem_gather {β : Type} {f : α → Multiset β} {b : β} (he : e ∈ entries) (hb : b ∈ f e.2) :
    b ∈ gather f entries := by
  induction entries with
  | nil => cases he
  | cons e' rest ih =>
    rw [gather_cons]
    rcases List.mem_cons.mp he with rfl | he
    · exact Multiset.mem_add.mpr (.inl hb)
    · exact Multiset.mem_add.mpr (.inr (ih he))

end Members

/-! ## Entries with their values changed -/

section MapValues

variable {κ α β : Type} (f : α → β)

@[simp] theorem mapValues_cons (k : κ) (a : α) (entries : List (κ × α)) :
    mapValues f ((k, a) :: entries) = (k, f a) :: mapValues f entries := rfl

variable [BEq κ]

theorem lookup_mapValues (k : κ) (entries : List (κ × α)) :
    (mapValues f entries).lookup k = (entries.lookup k).map f := by
  induction entries with
  | nil => rfl
  | cons e rest ih =>
    obtain ⟨k', a'⟩ := e
    rw [mapValues_cons, List.lookup_cons, List.lookup_cons]
    split
    · rfl
    · exact ih

theorem mapValues_put (k : κ) (a : α) (entries : List (κ × α)) :
    mapValues f (put k a entries) = put k (f a) (mapValues f entries) := by
  induction entries with
  | nil => rfl
  | cons e rest ih =>
    obtain ⟨k', a'⟩ := e
    rw [mapValues_cons, put, put]
    split
    · rfl
    · rw [mapValues_cons, ih]

theorem mapValues_remove (k : κ) (entries : List (κ × α)) :
    mapValues f (remove k entries) = remove k (mapValues f entries) := by
  induction entries with
  | nil => rfl
  | cons e rest ih =>
    obtain ⟨k', a'⟩ := e
    rw [mapValues_cons, remove, remove]
    split
    · rfl
    · rw [mapValues_cons, ih]

/-- Putting back what is there changes nothing. -/
theorem put_of_lookup [LawfulBEq κ] {k : κ} {a : α} {entries : List (κ × α)}
    (h : entries.lookup k = some a) : put k a entries = entries := by
  induction entries with
  | nil => cases h
  | cons e rest ih =>
    obtain ⟨k', a'⟩ := e
    rw [put]
    by_cases hk : k' = k
    · subst hk
      rw [List.lookup_cons, beq_self_eq_true] at h
      cases h
      rw [if_pos (beq_self_eq_true k')]
    · have hkk : (k' == k) = false := beq_false_of_ne hk
      have hkk' : (k == k') = false := beq_false_of_ne (Ne.symm hk)
      rw [List.lookup_cons, hkk'] at h
      rw [hkk, ih h]
      rfl

end MapValues

end Entries

namespace Registers

variable {V : Type}

/-! ## Owners -/

/-- The owner of a variable's value. -/
def ofVariable (v : V) : Multiset (Owner V) := {.value .caller v}

/-- Everybody who owns something by name. -/
def owners (r : Registers V) : Multiset (Owner V) :=
  Entries.gather Owner.ofPointer r.handles + Entries.gather ofVariable r.values +
    Entries.gather Owner.ofRaw r.raws

/-- Raw blocks are there for their references. -/
def Proper (r : Registers V) : Prop := ∀ e ∈ r.raws, 0 < e.2.owned

section Changes

variable (r : Registers V) (name : String)

/-- A handle that is named owns its pointer, next to the owners by other names. -/
theorem owners_putHandle (p : Pointer) :
    owners { r with handles := Entries.put name p r.handles } =
      Owner.ofPointer p + owners { r with handles := Entries.remove name r.handles } := by
  simp only [owners, Entries.gather_put, add_assoc]

theorem owners_removeHandle :
    (r.handles.lookup name).elim 0 Owner.ofPointer +
        owners { r with handles := Entries.remove name r.handles } = r.owners := by
  simp only [owners, ← add_assoc, ← Entries.gather_eq _ (fun _ _ => BEq.comm)]

theorem owners_putVariable (v : V) :
    owners { r with values := Entries.put name v r.values } =
      {.value .caller v} + owners { r with values := Entries.remove name r.values } := by
  simp only [owners, Entries.gather_put, ofVariable]
  abel

theorem owners_removeVariable :
    (r.values.lookup name).elim 0 ofVariable +
        owners { r with values := Entries.remove name r.values } = r.owners := by
  simp only [owners]
  rw [Entries.gather_eq _ (fun _ _ => BEq.comm) name r.values]
  abel

theorem owners_putRaw (u : RawBlock) :
    owners { r with raws := Entries.put name u r.raws } =
      Owner.ofRaw u + owners { r with raws := Entries.remove name r.raws } := by
  simp only [owners, Entries.gather_put]
  abel

theorem owners_removeRaw :
    (r.raws.lookup name).elim 0 Owner.ofRaw +
        owners { r with raws := Entries.remove name r.raws } = r.owners := by
  simp only [owners]
  rw [Entries.gather_eq _ (fun _ _ => BEq.comm) name r.raws]
  abel

end Changes

/-! ## What is registered is owned -/

theorem lookup_of_handleNamed {r : Registers V} {name : String} {p : Pointer}
    (h : r.handleNamed name = .ok p) : r.handles.lookup name = some p := by
  rw [handleNamed] at h
  split at h
  · cases h
    assumption
  · cases h

theorem lookup_of_variableNamed {r : Registers V} {name : String} {v : V}
    (h : r.variableNamed name = .ok v) : r.values.lookup name = some v := by
  rw [variableNamed] at h
  split at h
  · cases h
    assumption
  · cases h

theorem lookup_of_rawNamed {r : Registers V} {name : String} {u : RawBlock}
    (h : r.rawNamed name = .ok u) : r.raws.lookup name = some u := by
  rw [rawNamed] at h
  split at h
  · cases h
    assumption
  · cases h

section Lookup

variable {r : Registers V} {os : Multiset (Owner V)}

theorem mem_variable (hr : r.owners ≤ os) {name : String} {v : V}
    (hv : r.values.lookup name = some v) : .value .caller v ∈ os := by
  refine Multiset.mem_of_le hr ?_
  rw [← owners_removeVariable r name, hv]
  exact Multiset.mem_add.mpr (.inl (Multiset.mem_singleton_self _))

theorem Proper.owned_pos (hproper : r.Proper) {name : String} {u : RawBlock}
    (hu : r.raws.lookup name = some u) : 0 < u.owned := by
  obtain ⟨e, he, -, rfl⟩ := Entries.exists_mem_of_lookup hu
  exact hproper e he

theorem Proper.putRaw (hproper : r.Proper) {name : String} {u : RawBlock} (hu : 0 < u.owned) :
    Proper { r with raws := Entries.put name u r.raws } :=
  fun e he => (Entries.eq_or_mem_of_mem_put he).elim (fun h => h ▸ hu) (hproper e)

theorem Proper.removeRaw (hproper : r.Proper) (name : String) :
    Proper { r with raws := Entries.remove name r.raws } :=
  fun e he => hproper e (Entries.mem_of_mem_remove he)

/-- The registers when a raw block has given back one reference. -/
def released (r : Registers V) (name : String) (u : RawBlock) : Registers V :=
  { r with raws :=
      if u.owned ≤ 1 then Entries.remove name r.raws
      else Entries.put name { u with owned := u.owned - 1 } r.raws }

/-- A raw block that gives back a reference owned it, next to everything that is owned then. -/
theorem owners_released {name : String} {u : RawBlock} (hu : r.raws.lookup name = some u)
    (hpos : 0 < u.owned) :
    r.owners = {.ref (.block u.block u.size)} + (r.released name u).owners := by
  obtain ⟨b, n, k⟩ := u
  obtain ⟨k, rfl⟩ : ∃ m, k = m + 1 := Nat.exists_eq_succ_of_ne_zero (Nat.ne_of_gt hpos)
  have hone := Owner.ofRaw_succ_add b n k
    (owners { r with raws := Entries.remove name r.raws })
  rw [← owners_removeRaw r name, hu, Option.elim_some, hone, released]
  by_cases hk : k + 1 ≤ 1
  · obtain rfl : k = 0 := by omega
    rw [if_pos hk]
    exact zero_add _
  · rw [if_neg hk, owners_putRaw, Nat.add_sub_cancel]
    abel

theorem Proper.released (hproper : r.Proper) {name : String} {u : RawBlock} :
    (r.released name u).Proper := by
  rw [Registers.released]
  by_cases hu : u.owned ≤ 1
  · rw [if_pos hu]
    exact hproper.removeRaw name
  · rw [if_neg hu]
    refine hproper.putRaw ?_
    show 0 < u.owned - 1
    omega

variable [Host V]

/-- The pointer of a handle is kept by the handle. -/
theorem keeps_of_mem (hr : r.owners ≤ os) {e : String × Pointer} (he : e ∈ r.handles) :
    Owner.Keeps os e.2 := by
  intro b n hp
  refine Owner.mem_refs.mpr ⟨.ref (.block b n), Multiset.mem_of_le hr ?_, rfl⟩
  refine Multiset.mem_add.mpr (.inl (Multiset.mem_add.mpr (.inl (Entries.mem_gather he ?_))))
  rw [hp]
  exact Multiset.mem_singleton_self _

theorem keeps_handle (hr : r.owners ≤ os) {name : String} {p : Pointer}
    (hp : r.handles.lookup name = some p) : Owner.Keeps os p := by
  obtain ⟨e, he, -, rfl⟩ := Entries.exists_mem_of_lookup hp
  exact keeps_of_mem hr he

theorem mem_refs_raw (hr : r.owners ≤ os) (hproper : r.Proper) {name : String} {u : RawBlock}
    (hu : r.raws.lookup name = some u) : .block u.block u.size ∈ Owner.refs os := by
  have hle : Owner.ofRaw u ≤ os := by
    refine le_trans ?_ hr
    rw [← owners_removeRaw r name, hu]
    exact Multiset.le_add_right _ _
  refine Multiset.mem_of_le (Multiset.filterMap_le_filterMap _ hle) ?_
  refine (Multiset.mem_filterMap _ _).mpr ⟨.ref (.block u.block u.size), ?_, rfl⟩
  exact Multiset.mem_replicate.mpr ⟨Nat.ne_of_gt (hproper.owned_pos hu), rfl⟩

end Lookup

/-! ## Registers of a plain store -/

section Faces

variable [Host V] [Faced V]

/-- The registers with data for values. -/
def faces (r : Registers V) : Registers Datum where
  handles := r.handles
  values := Entries.mapValues face r.values
  raws := r.raws

theorem handleNamed_faces (r : Registers V) (name : String) :
    r.faces.handleNamed name = r.handleNamed name := rfl

theorem variableNamed_faces (r : Registers V) (name : String) :
    r.faces.variableNamed name = (r.variableNamed name).map face := by
  simp only [variableNamed, faces]
  rw [Entries.lookup_mapValues]
  cases r.values.lookup name <;> rfl

end Faces

end Registers
end CountedCells

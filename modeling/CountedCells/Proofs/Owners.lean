import CountedCells.Proofs.Commands

/-!
# Owners: counting them in plain sight

How many owners a block has can be read off a session without any ledger: the handles that denote
it, the references of raw blocks, and the bare pointers among the values. Values are in variables,
in the set cells of blocks that are there, and inside payloads that are still shared, each payload
counted once however many values share it (`Session.countValues`). The same values own the shares of
payloads.

Between commands these are all owners there are, so a ledger counts the same.
-/

namespace CountedCells

/-- The pointer points to the block. -/
def Pointer.denotes (b : BlockId) : Pointer → Bool
  | .null => false
  | .cells c _ => c == b

/-- The datum is a pointer to the block. -/
def Datum.denotes (b : BlockId) : Datum → Bool
  | .pointer p => p.denotes b
  | _ => false

variable {V : Type}

/-- The values in set cells with a property. -/
def Heap.countCells (h : Heap V) (q : V → Bool) : Nat :=
  (h.blocks.map fun o => o.elim 0 fun block => block.stored.countP q).sum

/-- The values inside payloads that are still shared with a property. -/
def Heap.countParts (h : Heap V) (q : V → Bool) : Nat :=
  (h.payloads.map fun p => if p.shares = 0 then 0 else p.parts.countP q).sum

namespace Session

/-- The values with a property, wherever they are. -/
def countValues (s : Session V) (q : V → Bool) : Nat :=
  (s.values.countP fun e => q e.2) + s.heap.countCells q + s.heap.countParts q

variable [Host V] [Faced V]

/-- The number of owners of a block. -/
def ownersOf (s : Session V) (b : BlockId) : Nat :=
  (s.handles.countP fun e => e.2.denotes b) +
    (s.raws.map fun e => if e.2.block = b then e.2.owned else 0).sum +
    s.countValues fun v => (face v).denotes b

/-- The number of values that share a payload. -/
def sharersOf (s : Session V) (p : PayloadId) : Nat :=
  s.countValues fun v => Host.ref v = some (.payload p)

end Session

/-! ## The ledger of a session -/

/-- A session with all its owners. -/
def Session.ledger (s : Session V) (w : Written V) : Ledger V := ⟨s.heap, s.owners, w⟩

/-- Somebody has the value: a variable, a cell or a payload. -/
def Session.Has (s : Session V) (v : V) : Prop := (∃ e ∈ s.values, e.2 = v) ∨ v ∈ s.heap.held

/-- Something additive is gathered entry by entry. -/
theorem Entries.map_gather {κ α M N : Type} [AddCommMonoid M] [AddCommMonoid N] (φ : M →+ N)
    (f : α → M) (entries : List (κ × α)) :
    φ (gather f entries) = gather (fun a => φ (f a)) entries := by
  induction entries with
  | nil => exact map_zero φ
  | cons e rest ih => rw [gather_cons, gather_cons, map_add, ih]

variable [Host V] [Faced V]

/-- How many of the references that owners have satisfy a condition. -/
def Owner.countRefs (R : Ref → Prop) [DecidablePred R] : Multiset (Owner V) →+ Nat where
  toFun os := (Owner.refs os).countP R
  map_zero' := rfl
  map_add' os os' := by rw [Owner.refs_add, Multiset.countP_add]

omit [Faced V] in
/-- The references of the values in a list that satisfy a condition. -/
theorem countP_filterMap_ref (R : Ref → Prop) [DecidablePred R] (vs : List V) :
    ((vs : Multiset V).filterMap Host.ref).countP R =
      vs.countP fun v => (Host.ref v).any fun r => decide (R r) := by
  rw [Multiset.filterMap_coe, Multiset.coe_countP, List.countP_filterMap]
  refine List.countP_congr fun v _ => ?_
  cases Host.ref v <;> rfl

/-- Values that are held, with their references, are in cells or in payloads that are still
shared. -/
theorem countP_held {h : Heap V} {w : Written V} {os : Multiset (Owner V)}
    (hl : Ledger.Sound ⟨h, os, w⟩) (R : Ref → Prop) [DecidablePred R] :
    (h.held.filterMap Host.ref).countP R =
      h.countCells (fun v => (Host.ref v).any fun r => decide (R r)) +
        h.countParts fun v => (Host.ref v).any fun r => decide (R r) := by
  rw [Heap.held, Multiset.filterMap_add, Multiset.countP_add, countP_filterMap_ref,
    countP_filterMap_ref, List.countP_flatMap, List.countP_flatMap]
  congr 1
  · refine congrArg List.sum (List.map_congr_left fun o _ => ?_)
    cases o <;> rfl
  · refine congrArg List.sum (List.map_congr_left fun payload hpayload => ?_)
    obtain ⟨p, hp⟩ := List.mem_iff_getElem?.mp hpayload
    simp only [Function.comp_apply]
    split
    · rename_i hzero
      rw [hl.spent p payload hp hzero]
      rfl
    · rfl

omit [Faced V] in
/-- The owners that a session names, with their references. -/
theorem countRefs_owners (s : Session V) (R : Ref → Prop) [DecidablePred R] :
    Owner.countRefs R s.owners =
      Entries.gather (fun p => Owner.countRefs (V := V) R (Owner.ofPointer p)) s.handles +
        Entries.gather (fun u => Owner.countRefs (V := V) R (Owner.ofRaw u)) s.raws +
        s.values.countP fun e => (Host.ref e.2).any fun r => decide (R r) := by
  have hvalues : Entries.gather (fun v => Owner.countRefs R (Registers.ofVariable v)) s.values =
      s.values.countP fun e => (Host.ref e.2).any fun r => decide (R r) := by
    induction s.values with
    | nil => rfl
    | cons e rest ih =>
      have hv : Owner.countRefs R (Registers.ofVariable e.2) =
          if (Host.ref e.2).any fun r => decide (R r) then 1 else 0 := by
        show (Owner.refs {.value .caller e.2}).countP R = _
        rw [Owner.refs_value, Multiset.coe_countP]
        rcases Host.ref e.2 with - | r <;> simp [List.countP_cons]
      rw [Entries.gather_cons, ih, List.countP_cons, hv, add_comm]
  rw [Registers.owners, map_add, map_add, Entries.map_gather, Entries.map_gather,
    Entries.map_gather, hvalues]
  exact add_right_comm _ _ _

/-- A value owns a reference to a block if it is a pointer to it. -/
theorem any_ref_block (b : BlockId) (v : V) :
    (Host.ref v).any (fun r => decide (r.block? = some b)) = (face v).denotes b := by
  have hother : (∀ c n, Host.ref v ≠ some (.block c n)) → (face v).denotes b = false := by
    intro hne
    cases hface : face v with
    | pointer p =>
      cases p with
      | null => rfl
      | cells c n => exact absurd (Faced.ref_eq_block.mpr hface) (hne c n)
    | _ => rfl
  rcases hr : Host.ref v with - | (⟨c, n⟩ | p)
  · rw [hother fun c n => by simp [hr]]
    rfl
  · rw [Faced.ref_eq_block.mp hr]
    simp only [Option.any_some, Ref.block?, Option.some_inj, Datum.denotes, Pointer.denotes]
    rfl
  · rw [hother fun c n => by simp [hr]]
    rfl

omit [Faced V] in
/-- A handle owns one reference to the block that it denotes. -/
theorem gather_handles_block (b : BlockId) (handles : List (String × Pointer)) :
    Entries.gather (fun p => Owner.countRefs (V := V) (·.block? = some b) (Owner.ofPointer p))
      handles = handles.countP fun e => e.2.denotes b := by
  induction handles with
  | nil => rfl
  | cons e rest ih =>
    have hp : Owner.countRefs (V := V) (·.block? = some b) (Owner.ofPointer e.2) =
        if e.2.denotes b then 1 else 0 := by
      show (Owner.refs (Owner.ofPointer e.2)).countP _ = _
      rw [Owner.refs_ofPointer, Multiset.coe_countP]
      rcases e.2 with - | ⟨c, n⟩ <;> simp [Pointer.ref, Pointer.denotes, Ref.block?]
    rw [Entries.gather_cons, ih, hp, List.countP_cons, add_comm]

omit [Faced V] in
/-- A raw block owns the references that it has taken. -/
theorem countRefs_ofRaw (R : Ref → Prop) [DecidablePred R] (u : RawBlock) :
    Owner.countRefs (V := V) R (Owner.ofRaw u) =
      if R (.block u.block u.size) then u.owned else 0 := by
  show (Owner.refs (Owner.ofRaw u)).countP R = _
  rw [Owner.ofRaw, ← Multiset.coe_replicate, Owner.refs, Multiset.filterMap_coe,
    Multiset.coe_countP, List.countP_filterMap, List.countP_replicate]
  simp [Owner.ref?]

/-! ## Pointers inside values -/

/-- A pointer inside a value is owned by the value, or by a part that the heap holds. -/
theorem Ledger.Sound.exists_owner {l : Ledger V} (hl : l.Sound) {v : V} (hv : l.Has v)
    {b : BlockId} {n : Nat} (hp : (face v).Holds (.cells b n)) :
    ∃ u, (u = v ∨ u ∈ l.heap.held) ∧ Host.ref u = some (.block b n) := by
  -- along the way down to the pointer, from one payload to the next
  generalize hd : face v = d at hp
  induction hp generalizing v with
  | here => exact ⟨v, .inl rfl, Faced.ref_eq_block.mpr hd⟩
  | @inside c d hc hholds ih =>
    subst hd
    -- a value with parts has a share of a payload, and the part is there
    obtain ⟨q, hq⟩ : ∃ q, Host.ref v = some (.payload q) := by
      rcases hr : Host.ref v with - | (⟨b', n'⟩ | q)
      · rw [Faced.children_eq_nil hr] at hc
        cases hc
      · rw [children_of_ref_block hr] at hc
        cases hc
      · exact ⟨q, rfl⟩
    obtain ⟨payload, hpayload, hchildren⟩ := hl.backed v hv q hq
    rw [hchildren] at hc
    obtain ⟨part, hpart, rfl⟩ := List.mem_map.mp hc
    have hheld : part ∈ l.heap.held := Heap.mem_held.mpr (.inr ⟨q, payload, hpayload, hpart⟩)
    obtain ⟨u, hu, href⟩ := ih (.inl hheld) rfl
    refine ⟨u, .inr ?_, href⟩
    rcases hu with rfl | hu
    · exact hheld
    · exact hu

theorem Ledger.Sound.mem_refs_of_holds {l : Ledger V} (hl : l.Sound) {v : V} (hv : l.Has v)
    {b : BlockId} {n : Nat} (hp : (face v).Holds (.cells b n)) : .block b n ∈ l.refs := by
  obtain ⟨u, hu, href⟩ := hl.exists_owner hv hp
  refine Ledger.mem_refs_of_has ?_ href
  rcases hu with rfl | hu
  · exact hv
  · exact .inl hu

/-! ## A session and its ledger -/

namespace Session

variable {s : Session V} {w : Written V}

omit [Host V] [Faced V] in
theorem Has.ledger {v : V} (hv : s.Has v) : (s.ledger w).Has v := by
  rcases hv with ⟨e, he, rfl⟩ | hv
  · have hmem : .value .caller e.2 ∈ Entries.gather Registers.ofVariable s.values :=
      Entries.mem_gather he (Multiset.mem_singleton_self _)
    exact .inr ⟨.caller, Multiset.mem_add.mpr (.inl (Multiset.mem_add.mpr (.inr hmem)))⟩
  · exact .inl hv

/-- A ledger counts the owners of a block that a session shows. -/
theorem ownersOf_ledger (hl : (s.ledger w).Sound) (b : BlockId) :
    (s.ledger w).ownersOf b = s.ownersOf b := by
  have hraws : Entries.gather
      (fun u => Owner.countRefs (V := V) (·.block? = some b) (Owner.ofRaw u)) s.raws =
        (s.raws.map fun e => if e.2.block = b then e.2.owned else 0).sum := by
    refine congrArg List.sum (List.map_congr_left fun e _ => ?_)
    refine (countRefs_ofRaw _ e.2).trans ?_
    simp only [Ref.block?, Option.some_inj]
  have howners := countRefs_owners s (·.block? = some b)
  rw [gather_handles_block, hraws] at howners
  have hheld := countP_held hl (·.block? = some b)
  simp only [any_ref_block] at howners hheld
  calc (s.ledger w).ownersOf b
      = (s.heap.held.filterMap Host.ref).countP (·.block? = some b) +
          Owner.countRefs (·.block? = some b) s.owners := Multiset.countP_add ..
    _ = s.ownersOf b := by
        rw [hheld, howners, ownersOf, countValues]
        omega

/-- A ledger counts the sharers of a payload that a session shows. -/
theorem sharersOf_ledger (hl : (s.ledger w).Sound) (p : PayloadId) :
    (s.ledger w).sharersOf p = s.sharersOf p := by
  -- neither handles nor raw blocks have shares of payloads
  have hhandles : Entries.gather
      (fun q => Owner.countRefs (V := V) (.payload p = ·) (Owner.ofPointer q)) s.handles = 0 := by
    refine List.sum_eq_zero fun k hk => ?_
    obtain ⟨e, -, rfl⟩ := List.mem_map.mp hk
    show (Owner.refs (Owner.ofPointer e.2)).countP _ = 0
    rw [Owner.refs_ofPointer, Multiset.coe_countP]
    rcases e.2 with - | ⟨c, n⟩ <;> simp [Pointer.ref]
  have hraws : Entries.gather
      (fun u => Owner.countRefs (V := V) (.payload p = ·) (Owner.ofRaw u)) s.raws = 0 := by
    refine List.sum_eq_zero fun k hk => ?_
    obtain ⟨e, -, rfl⟩ := List.mem_map.mp hk
    exact (countRefs_ofRaw _ e.2).trans (if_neg Ref.noConfusion)
  have hany (v : V) : ((Host.ref v).any fun r => decide (.payload p = r)) =
      decide (Host.ref v = some (.payload p)) := by
    rcases Host.ref v with - | r
    · rfl
    · simp [eq_comm]
  have howners := countRefs_owners s (.payload p = ·)
  rw [hhandles, hraws] at howners
  have hheld := countP_held hl (.payload p = ·)
  simp only [hany] at howners hheld
  calc (s.ledger w).sharersOf p
      = (s.heap.held.filterMap Host.ref).countP (.payload p = ·) +
          Owner.countRefs (.payload p = ·) s.owners := Multiset.countP_add ..
    _ = s.sharersOf p := by
        rw [hheld, howners, sharersOf, countValues]
        omega

end Session
end CountedCells

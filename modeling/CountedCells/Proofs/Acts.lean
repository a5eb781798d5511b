import CountedCells.Proofs.Follow

/-!
# Acts: what commands end with

The acts that commands are made of follow their plans: giving a name to something, with what had
the name before being given back; looking a name up; writing through a handle, which may get a cell
in place of null; giving back one reference of a raw block; and putting copies of handles into a
set. In each of them something changes its owner, and nothing is left over.
-/

namespace CountedCells

open Attempt

variable {V : Type} [Host V] [Faced V]

/-- What an answer tells that does not depend on counts. -/
def Answer.reply : Answer V → Reply
  | .done => .done
  | .made p _ | .inspected p _ => .pointer p
  | .value v => .datum (face v)
  | .values vs => .data (vs.map face)
  | .compared p q => .compared p q
  | .members fresh size => .members fresh size
  | .released _ | .cellCount _ | .stats _ | .config _ | .truth _ => .other

namespace Act

omit [Host V] [Faced V] in
theorem handle_apply {s : Session V} {name : String} {p : Pointer}
    (hp : s.handles.lookup name = some p) : handle name s = (.ok p, s) := by
  rw [handle, find_apply, Registers.handleNamed, hp]

omit [Host V] [Faced V] in
theorem rawBlock_apply {s : Session V} {name : String} {u : RawBlock}
    (hu : s.raws.lookup name = some u) : rawBlock name s = (.ok u, s) := by
  rw [rawBlock, find_apply, Registers.rawNamed, hu]

omit [Faced V] in
/-- A raw block gives back a reference and has one less, unless the block is found expired. -/
theorem releaseRaw_apply {s : Session V} {name : String} {u : RawBlock} {outcome : Release}
    {h : Heap V} (hrun : s.heap.release u.block u.size = (outcome, h)) :
    releaseRaw name u s = (.ok outcome,
      if outcome = .expired then { s with heap := h } else ⟨s.toRegisters.released name u, h⟩) := by
  simp only [releaseRaw]
  rw [bind_of_ok (run_change hrun)]
  by_cases hout : outcome = .expired
  · rw [if_neg (not_not_intro hout), if_pos hout]
    rfl
  · rw [if_pos hout, if_neg hout]
    rfl

omit [Faced V] in
/-- What a write through a handle does, where its outcome is known. -/
theorem setThrough_apply {s : Session V} {name : String} {p q : Pointer} {v : V}
    {outcome : Except Fault Unit} {h : Heap V} (hset : p.set v s.heap = ((q, outcome), h)) :
    setThrough name p v s = (outcome.mapError .fault,
      ⟨{ s.toRegisters with handles := Entries.put name q s.handles }, h⟩) := by
  rw [setThrough, bind_of_ok (run_change hset)]
  cases outcome <;> rfl

end Act

namespace Follows

variable {l : Ledger V} {may : Prop} {s : Session V} {os : Multiset (Owner V)} {w : Written V}

/-! ## Names -/

/-- A name is given to something new, and what had the name before is given back. -/
theorem rename {α : Type} {out : Except Failure Unit × Session V} (old : Option α)
    (r : Registers V) (give : α → Heap V → Heap V) (own : α → Multiset (Owner V))
    {new : Multiset (Owner V)} {plan : Plan Unit} (held : Held l s (new + os) w)
    (hgive : ∀ a h os' w', Stage l h (own a + os') w' → Stage l (give a h) os' w')
    (hout : out = (.ok (), old.elim { s with toRegisters := r } fun a =>
      Session.mapHeap { s with toRegisters := r } (give a)))
    (howners : new + s.owners = old.elim 0 own + r.owners) (hproper : r.Proper)
    (hplan : plan (.of s w) = .ok ((), ⟨r.faces, w.cells⟩)) :
    Follows l may out plan (fun _ => 0) id os s w := by
  have held' : Held l { s with toRegisters := r } (old.elim 0 own + os) w := by
    refine held.withRegisters hproper ?_
    calc s.owners + (new + os) = new + s.owners + os := by abel
      _ = r.owners + (old.elim 0 own + os) := by rw [howners]; abel
  cases old with
  | none => exact ends_of_ok hout ⟨w, held', hplan⟩
  | some a =>
    have held'' := (held'.giveBack (hgive a)).reown (zero_add os).symm
    exact ends_of_ok hout ⟨w, held'', hplan⟩

theorem nameHandle {p : Pointer} (name : String) (held : Held l s (Owner.ofPointer p + os) w) :
    Follows l may (Act.nameHandle name p s) (Plan.nameHandle name p) (fun _ => 0) id os s w := by
  refine rename (s.handles.lookup name)
    { s.toRegisters with handles := Entries.put name p s.handles } (fun q h => h.dropPointer q)
    Owner.ofPointer held (fun q _ _ _ => Stage.dropPointer) ?_ ?_ held.proper rfl
  · rw [Act.nameHandle, bind_of_ok (look_apply _ s)]
    cases s.handles.lookup name <;> rfl
  · rw [Registers.owners_putHandle, ← Registers.owners_removeHandle s.toRegisters name]
    abel

theorem nameVariable {v : V} (name : String) (held : Held l s ({.value .caller v} + os) w) :
    Follows l may (Act.nameVariable name v s) (Plan.nameVariable name (face v)) (fun _ => 0) id
      os s w := by
  refine rename (s.values.lookup name)
    { s.toRegisters with values := Entries.put name v s.values } (fun u h => h.drop u)
    Registers.ofVariable held (fun u _ _ _ => Stage.drop) ?_ ?_ held.proper ?_
  · rw [Act.nameVariable, bind_of_ok (look_apply _ s)]
    cases s.values.lookup name <;> rfl
  · rw [Registers.owners_putVariable, ← Registers.owners_removeVariable s.toRegisters name]
    abel
  · simp only [Registers.faces, Entries.mapValues_put]
    rfl

theorem nameRaw {u : RawBlock} (name : String) (hu : 0 < u.owned)
    (held : Held l s (Owner.ofRaw u + os) w) :
    Follows l may (Act.nameRaw name u s) (Plan.nameRaw name u) (fun _ => 0) id os s w := by
  refine rename (s.raws.lookup name)
    { s.toRegisters with raws := Entries.put name u s.raws } RawBlock.giveBack Owner.ofRaw held
    (fun u _ _ _ => Stage.giveBack) ?_ ?_ (held.proper.putRaw hu) rfl
  · rw [Act.nameRaw, bind_of_ok (look_apply _ s)]
    cases s.raws.lookup name <;> rfl
  · rw [Registers.owners_putRaw, ← Registers.owners_removeRaw s.toRegisters name]
    abel

/-- A pointer that was made is named and answered with. -/
theorem made {p : Pointer} (name : String) (held : Held l s (Owner.ofPointer p + os) w) :
    Follows l may (Act.made name p s) (Plan.made name p) (fun _ => 0) Answer.reply os s w :=
  (nameHandle name held).map (fun _ => Reply.pointer p) fun _ s' _ held' =>
    ⟨_, s', rfl, rfl, held', rfl⟩

/-- A value that was read is kept or dropped, and answered with. -/
theorem answerValue {v : V} (keep : Option String) (held : Held l s ({.value .caller v} + os) w) :
    Follows l may (Act.answerValue keep v s) (Plan.answerValue keep (face v)) (fun _ => 0)
      Answer.reply os s w := by
  cases keep with
  | some name => exact (nameVariable name held).reply (fun _ => rfl) rfl
  | none =>
    refine updateHeap_bind held (fun _ _ _ => Stage.drop) fun held' => ?_
    exact done (a := Answer.value v) (held'.reown (zero_add os).symm) rfl rfl

/-! ## Lookups -/

theorem handle_bind {α β : Type} {name : String} {f : Pointer → Act V α} {F : Pointer → Plan β}
    {own : α → Multiset (Owner V)} {view : α → β} (held : Held l s os w)
    (hf : ∀ p, s.handles.lookup name = some p → Follows l may (f p s) (F p) own view os s w) :
    Follows l may ((Act.handle name >>= f) s) (Plan.handle name >>= F) own view os s w := by
  have hnamed : (Plain.of s w).handleNamed name = (s.handleNamed name).map id := by
    show s.handleNamed name = _
    cases s.handleNamed name <;> rfl
  exact find_bind held hnamed fun p hp => hf p (Registers.lookup_of_handleNamed hp)

theorem variable_bind {α β : Type} {name : String} {f : V → Act V α} {F : Datum → Plan β}
    {own : α → Multiset (Owner V)} {view : α → β} (held : Held l s os w)
    (hf : ∀ v, s.values.lookup name = some v →
      Follows l may (f v s) (F (face v)) own view os s w) :
    Follows l may ((Act.variableValue name >>= f) s) (Plan.variableDatum name >>= F) own view
      os s w :=
  find_bind held (Registers.variableNamed_faces s.toRegisters name) fun v hv =>
    hf v (Registers.lookup_of_variableNamed hv)

theorem raw_bind {α β : Type} {name : String} {f : RawBlock → Act V α} {F : RawBlock → Plan β}
    {own : α → Multiset (Owner V)} {view : α → β} (held : Held l s os w)
    (hf : ∀ u, s.raws.lookup name = some u → Follows l may (f u s) (F u) own view os s w) :
    Follows l may ((Act.rawBlock name >>= f) s) (Plan.rawBlock name >>= F) own view os s w := by
  have hnamed : (Plain.of s w).rawNamed name = (s.rawNamed name).map id := by
    show s.rawNamed name = _
    cases s.rawNamed name <;> rfl
  exact find_bind held hnamed fun u hu => hf u (Registers.lookup_of_rawNamed hu)

theorem rawWithCell_bind {α β : Type} {name : String} {i : Nat} {f : RawBlock → Act V α}
    {F : RawBlock → Plan β} {own : α → Multiset (Owner V)} {view : α → β} (held : Held l s os w)
    (hf : ∀ u, s.raws.lookup name = some u → i < u.size →
      Follows l may (f u s) (F u) own view os s w) :
    Follows l may ((Act.rawWithCell name i >>= f) s) (Plan.rawWithCell name i >>= F) own view
      os s w := by
  rw [Act.rawWithCell, Plan.rawWithCell, bind_assoc, bind_assoc]
  refine raw_bind held fun u hu => ?_
  by_cases hi : i < u.size
  · rw [if_pos hi, if_pos hi, pure_bind, pure_bind]
    exact hf u hu hi
  · rw [if_neg hi, if_neg hi]
    exact stopped held rfl rfl

/-! ## Writing through a handle -/

/-- A value is stored through a handle, which may get a cell in place of null. -/
theorem setThrough {p : Pointer} {v : V} (name : String) (held : Held l s os w)
    (hp : s.handles.lookup name = some p) (hv : Sourced os v) (hmay : may) :
    Follows l may (Act.setThrough name p v s) (Plan.set p (face v) >>= Plan.nameHandle name)
      (fun _ => 0) id os s w := by
  -- the handle and the others are told apart while the handle is out of the registers
  let rest : Registers V := { s.toRegisters with handles := Entries.remove name s.handles }
  have hs : s.owners = Owner.ofPointer p + rest.owners := by
    rw [← Registers.owners_removeHandle s.toRegisters name, hp]
    rfl
  have st : Stage l s.heap (Owner.ofPointer p + (rest.owners + os)) w :=
    held.stage.reown (by rw [hs, add_assoc])
  have hset := ends_set (r := s.faces) st hv.add hmay
  have hput (q : Pointer) : Registers.owners
      { s.toRegisters with handles := Entries.put name q s.handles } =
        Owner.ofPointer q + rest.owners := Registers.owners_putHandle ..
  rcases hrun : p.set v s.heap with ⟨⟨q, outcome⟩, h⟩
  rw [hrun] at hset
  cases outcome with
  | ok _ =>
    obtain ⟨w', st, hplan⟩ := hset
    refine ends_of_ok (Act.setThrough_apply hrun) ⟨w', ⟨st.reown ?_, held.proper⟩, ?_⟩
    · rw [hput, zero_add, add_assoc]
    · exact (Plan.bind_of_ok hplan).trans rfl
  | error f =>
    obtain ⟨w', hw, st, hcause⟩ := hset
    refine ends_of_error (Act.setThrough_apply hrun) ⟨w', ⟨st.reown ?_, held.proper⟩, hw, ?_⟩
    · rw [hput, add_assoc]
    · -- the pointer is the same, or it was null and got a cell that the value was not written to
      have hsame (hq : q = p) :
          { s.toRegisters with handles := Entries.put name q s.handles } = s.toRegisters := by
        rw [hq, Entries.put_of_lookup hp]
      refine hcause.imp (fun ⟨hq, hplan⟩ => ⟨hsame hq, hplan.imp_left Plan.bind_of_error⟩)
        fun ⟨hblames, hq⟩ => ⟨hblames, hq.imp hsame ?_⟩
      rintro ⟨rfl, rfl⟩
      exact ⟨name, w.length, hp, le_refl _, rfl⟩

/-! ## Raw blocks -/

/-- One reference of a raw block with a count is given back, and the last one takes the name with
it. -/
theorem releaseRaw {u : RawBlock} (name : String) (held : Held l s os w)
    (hu : s.raws.lookup name = some u) (hcount : 0 < s.heap.count u.block) :
    Follows l may (Act.releaseRaw name u s) (Plan.releaseRaw name u) (fun _ => 0) (fun _ => ())
      os s w := by
  have howners := Registers.owners_released hu (held.proper.owned_pos hu)
  have st : Stage l s.heap
      ({.ref (.block u.block u.size)} + ((s.toRegisters.released name u).owners + os)) w := by
    refine held.stage.reown ?_
    rw [howners, add_assoc]
  rcases hrun : s.heap.release u.block u.size with ⟨outcome, h⟩
  have hrelease := st.release
  rw [hrun] at hrelease
  rw [Act.releaseRaw_apply hrun]
  rcases hrelease with ⟨-, -, hzero⟩ | ⟨hne, st'⟩
  · exact absurd hzero (Nat.ne_of_gt hcount)
  · rw [if_neg hne]
    refine ends_of_ok rfl ⟨w, ⟨st'.reown ?_, held.proper.released⟩, rfl⟩
    rw [zero_add]

/-! ## Sets of handles -/

/-- Copies of handles are put into a set, next to the members before. -/
theorem collect (names : List String) (got : List Pointer)
    (held : Held l s (Owner.ofPointers got + os) w) :
    Follows l may (Act.collect got names s) (Plan.collect got names)
      (fun x => Owner.ofPointers x.2) id os s w := by
  -- the members so far are owners besides, and the induction is for all of them
  induction names generalizing got s w with
  | nil => exact done (a := ([], got)) held rfl rfl
  | cons name names ih =>
    rw [Act.collect]
    let copied : Act V Pointer := do Act.perform (← Act.handle name).copy
    let undo (h : Heap V) := got.foldl Heap.dropPointer h
    rcases hname : s.handleNamed name with e | p
    · -- the members so far are dropped
      have hcopied : copied s = (.error e, s) :=
        bind_of_error (by rw [Act.handle, find_apply, hname])
      have hrun : copied.orElseUndo (·.mapHeap undo) s = (.error e, s.mapHeap undo) := by
        rw [Attempt.orElseUndo, hcopied]
      have hplan : Plan.handle name (.of s w) = .error e := Plan.find_of_error hname
      refine ends_of_error (bind_of_error hrun) ⟨w, held.giveBack ?_, ?_⟩
      · exact fun _ _ _ st => st.dropPointers
      · exact .of_plan (Plan.bind_of_error hplan) rfl
    · have hcopied : copied s = Act.perform p.copy s :=
        bind_of_ok (by rw [Act.handle, find_apply, hname])
      have hrun : copied.orElseUndo (·.mapHeap undo) s =
          Act.run ((Evaluation.ofAction p.copy).orElseUndo undo) s := by
        rw [← Act.orElseUndo_run, Attempt.orElseUndo, hcopied]
        rfl
      let rest (q : Pointer) : Plan (List Bool × List Pointer) :=
        if got.any q.same then do
          let x ← Plan.collect got names
          pure (false :: x.1, x.2)
        else do
          let x ← Plan.collect (got ++ [q]) names
          pure (true :: x.1, x.2)
      have hplan : Plan.collect got (name :: names) (.of s w) = (pure p >>= rest) (.of s w) :=
        Plan.bind_of_ok (Plan.find_of_ok hname)
      have st : Stage l s.heap (Owner.ofPointers got + (s.owners + os)) w :=
        held.stage.reown (add_left_comm _ _ _)
      have hkeeps : Owner.Keeps (Owner.ofPointers got + (s.owners + os)) p :=
        Registers.keeps_handle ((Held.owners_le s os).trans (Multiset.le_add_left _ _))
          (Registers.lookup_of_handleNamed hname)
      have hcopy : Mirrors l s.faces may ((Evaluation.ofAction p.copy).orElseUndo undo s.heap)
          (pure p) (fun q => Owner.ofPointer q + Owner.ofPointers got) id (s.owners + os) w :=
        (mirrors_copy st hkeeps).ofAction.orElseUndo fun _ _ st => st.dropPointers
      refine of_plan ?_ hplan
      rw [bind_congr_left hrun]
      refine run_bind held hcopy fun q h w' held' => ?_
      show Follows l may _ (rest q) _ _ os _ w'
      unfold rest
      by_cases hq : got.any q.same
      · -- a member like this is there, so the copy is dropped again
        have held'' : Held l { s with heap := h }
            (Owner.ofPointer q + (Owner.ofPointers got + os)) w' := held'.reown (add_assoc _ _ _)
        rw [if_pos hq, if_pos hq]
        refine updateHeap_bind held'' (fun _ _ _ => Stage.dropPointer) fun held₁ => ?_
        refine (ih got held₁).map (fun x => (false :: x.1, x.2)) fun x s' _ held₂ => ?_
        exact ⟨(false :: x.1, x.2), s', rfl, rfl, held₂, rfl⟩
      · have held'' : Held l { s with heap := h } (Owner.ofPointers (got ++ [q]) + os) w' :=
          held'.reown (by rw [Owner.ofPointers_concat])
        rw [if_neg hq, if_neg hq]
        refine (ih (got ++ [q]) held'').map (fun x => (true :: x.1, x.2)) fun x s' _ held₂ => ?_
        exact ⟨(true :: x.1, x.2), s', rfl, rfl, held₂, rfl⟩

end Follows

/-! ## Origins of addresses -/

/-- The address that an origin gives for a pointer to `n` cells. -/
def Origin.address? {V : Type} (o : Origin) (n : Nat) (r : Registers V) : Except Failure Address :=
  match o with
  | .handle name =>
    match r.handleNamed name with
    | .error e => .error e
    | .ok .null => .ok .sentinel
    | .ok (.cells b m) => if m = n then .ok (.block b) else .error .undefined
  | .raw name =>
    match r.rawNamed name with
    | .error e => .error e
    | .ok u => if u.size = n then .ok (.block u.block) else .error .undefined
  | .zero => .ok .zero
  | .sentinel => .ok .sentinel

/-- What an origin refers to, with its number of cells. -/
def Origin.target? {V : Type} (o : Origin) (r : Registers V) : Option (BlockId × Nat) :=
  match o with
  | .handle name =>
    match r.handles.lookup name with
    | some (.cells b n) => some (b, n)
    | _ => none
  | .raw name => (r.raws.lookup name).map fun u => (u.block, u.size)
  | .zero | .sentinel => none

namespace Origin

variable {o : Origin} {n : Nat} {b : BlockId}

theorem originAddress_apply {V : Type} (o : Origin) (n : Nat) (s : Session V) :
    Act.originAddress o n s = (o.address? n s.toRegisters, s) := by
  cases o with
  | handle name =>
    have hhandle : Act.handle name s = (s.handleNamed name, s) := rfl
    rcases hp : s.handleNamed name with e | p <;> rw [hp] at hhandle <;>
      simp only [Act.originAddress, address?, hp]
    · exact bind_of_error hhandle
    · refine (bind_of_ok hhandle).trans ?_
      cases p with
      | null => rfl
      | cells b m =>
        simp only [Pointer.address, Pointer.size, pure_bind]
        split <;> rfl
  | raw name =>
    have hraw : Act.rawBlock name s = (s.rawNamed name, s) := rfl
    rcases hu : s.rawNamed name with e | u <;> rw [hu] at hraw <;>
      simp only [Act.originAddress, address?, hu]
    · exact bind_of_error hraw
    · refine (bind_of_ok hraw).trans ?_
      simp only [pure_bind]
      split <;> rfl
  | zero => rfl
  | sentinel => rfl

theorem rebuilt_apply (o : Origin) (n : Nat) (p : Plain) :
    Plan.rebuilt o n p = (o.address? n p.toRegisters).map fun a => (a.pointer n, p) := by
  cases o with
  | handle name =>
    rcases hq : p.handleNamed name with e | q <;> simp only [Plan.rebuilt, address?, hq]
    · exact Plan.bind_of_error (Plan.find_of_error hq)
    · refine (Plan.bind_of_ok (Plan.find_of_ok hq)).trans ?_
      cases q with
      | null => rfl
      | cells b m =>
        simp only
        split <;> rfl
  | raw name =>
    rcases hu : p.rawNamed name with e | u <;> simp only [Plan.rebuilt, address?, hu]
    · exact Plan.bind_of_error (Plan.find_of_error hu)
    · refine (Plan.bind_of_ok (Plan.find_of_ok hu)).trans ?_
      split <;> rfl
  | zero => rfl
  | sentinel => rfl

/-- A block is only given with its number of cells. -/
theorem target?_of_address? {V : Type} {r : Registers V} (h : o.address? n r = .ok (.block b)) :
    o.target? r = some (b, n) := by
  cases o with
  | handle name =>
    rcases hp : r.handleNamed name with e | (- | ⟨c, m⟩) <;> simp only [address?, hp] at h
    · cases h
    · cases h
    · split at h
      · rename_i hm
        cases h
        simp only [target?, Registers.lookup_of_handleNamed hp, hm]
      · cases h
  | raw name =>
    rcases hu : r.rawNamed name with e | u <;> simp only [address?, hu] at h
    · cases h
    · split at h
      · rename_i hm
        cases h
        rw [target?, Registers.lookup_of_rawNamed hu, Option.map_some, hm]
      · cases h
  | zero => cases h
  | sentinel => cases h

/-- The registers own what an origin refers to. -/
theorem mem_refs_of_target? {V : Type} [Host V] {r : Registers V} {os : Multiset (Owner V)}
    (hr : r.owners ≤ os) (hproper : r.Proper) (h : o.target? r = some (b, n)) :
    .block b n ∈ Owner.refs os := by
  cases o with
  | handle name =>
    simp only [target?] at h
    split at h
    · rename_i c m hp
      cases h
      exact Registers.keeps_handle hr hp b n rfl
    · cases h
  | raw name =>
    obtain ⟨u, hu, hb⟩ := Option.map_eq_some_iff.mp h
    cases hb
    exact Registers.mem_refs_raw hr hproper hu
  | zero => cases h
  | sentinel => cases h

end Origin
end CountedCells

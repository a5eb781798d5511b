import CountedCells.Proofs.Acts

/-!
# Commands: every command follows its plan

One command after the other is carried out as its plan says (`Follows.command`,
`Follows.valueCommand`). Two commands are left out, because they set counts by hand: `rawExpire` and
`rawRestore` are dealt with where runs are. And when a pointer is rebuilt from an address, or a raw
block gives back a reference, the block there has to have a count (`Command.Sensible`,
`Command.Effective`); with exact counts it always has.
-/

namespace CountedCells

open Attempt

variable {V : Type} [Host V] [Faced V]

namespace Command

variable {E : Type}

/-- The command sets no count by hand. -/
def Steady : Command E → Prop
  | .rawExpire _ | .rawRestore _ _ => False
  | _ => True

/-- The command makes blocks, and may be refused for want of room. -/
def MakesCells : Command E → Prop
  | .allocate _ _ | .allocateCount _ _ | .allocateValues _ _ | .set _ _ | .rawAllocate _ _ => True
  | _ => False

/-- A pointer is rebuilt only where the block has a count. -/
def Sensible (c : Command E) (s : Session V) : Prop :=
  match c with
  | .rebuild _ o n => ∀ b, o.target? s.toRegisters = some (b, n) → 0 < s.heap.count b
  | _ => True

/-- A raw block gives back a reference only where the block has a count. -/
def Effective (c : Command E) (s : Session V) : Prop :=
  match c with
  | .rawRelease name => ∀ u, s.raws.lookup name = some u → 0 < s.heap.count u.block
  | _ => True

omit [Host V] [Faced V] in
theorem effective_or (c : Command E) (s : Session V) :
    c.Effective s ∨ ∃ name u, c = .rawRelease name ∧ s.raws.lookup name = some u ∧
      s.heap.count u.block = 0 := by
  by_cases hc : c.Effective s
  · exact .inl hc
  cases c with
  | rawRelease name =>
    simp only [Effective, not_forall, Nat.not_lt, Nat.le_zero] at hc
    obtain ⟨u, hu, hcount⟩ := hc
    exact .inr ⟨name, u, rfl, hu, hcount⟩
  | _ => exact absurd trivial hc

end Command

/-- Exchanging the contents of two cells exchanges the entries. -/
theorem Written.cells_exchange {w : Written V} {b c : BlockId} {i j : Nat} {xs ys : List (Option V)}
    (hxs : w[b]? = some xs) (hi : i < xs.length) (hys : w[c]? = some ys) (hj : j < ys.length) :
    Written.cells ((w.put b i (w.at? c j)).put c j (w.at? b i)) =
      (w.cells.put b i (w.cells.entry c j)).put c j (w.cells.entry b i) := by
  rw [cells_put, cells_put, entry_cells hxs hi, entry_cells hys hj]

namespace Follows

variable {E : Type} [Expression E V] [Meaning E] [Faithful E V] {l : Ledger V} {may : Prop}
  {s : Session V} {os : Multiset (Owner V)} {w : Written V}

/-! ## Making pointers -/

theorem allocate (name : String) (e : E) (hmay : may) (held : Held l s os w) :
    Follows l may (Act.ofCommand (.allocate name e) s) (Plan.ofCommand (.allocate name e))
      (fun _ => 0) Answer.reply os s w := by
  refine withValue held e fun v h w' held' => ?_
  have hv : Sourced (s.owners + ({.value .caller v} + os)) v :=
    .inl ⟨.caller, by simp⟩
  exact run_bind held' (mirrors_allocate held'.stage hv hmay).ofAction fun p h' w'' held'' =>
    made name held''

theorem allocateCount (name : String) (n : Nat) (hmay : may) (held : Held l s os w) :
    Follows l may (Act.ofCommand (.allocateCount name n : Command E) s)
      (Plan.ofCommand (.allocateCount name n : Command E)) (fun _ => 0) Answer.reply os s w := by
  have hvs : ∀ v ∈ (Filling.count n : Filling V).contents, Sourced (s.owners + os) v := by
    intro v hv
    refine .inr fun r hr => ?_
    rw [(List.mem_replicate.mp hv).2, Host.ref_default] at hr
    cases hr
  have hplan : (Filling.count n : Filling V).contents.map face = List.replicate n (blank E) := by
    rw [Filling.contents, List.map_replicate, Faithful.blank_eq]
  have hact := (mirrors_allocateCollection (r := s.faces) held.stage hvs hmay).ofAction
  rw [hplan] at hact
  exact run_bind held hact fun p h w' held' => made name held'

theorem allocateValues (name : String) (es : List E) (hmay : may) (held : Held l s os w) :
    Follows l may (Act.ofCommand (.allocateValues name es) s)
      (Plan.ofCommand (.allocateValues name es)) (fun _ => 0) Answer.reply os s w := by
  refine withValues held es fun vs h w' held' => ?_
  have hvs : ∀ v ∈ (Filling.values vs).contents,
      Sourced (s.owners + (Owner.ofValues .caller vs + os)) v := by
    intro v hv
    refine .inl ⟨.caller, ?_⟩
    have hmem : .value .caller v ∈ Owner.ofValues .caller vs :=
      Owner.value_mem_ofValues.mpr ⟨rfl, hv⟩
    simp [hmem]
  exact run_bind held' (mirrors_allocateCollection held'.stage hvs hmay).ofAction
    fun p h' w'' held'' => made name held''

omit [Expression E V] [Meaning E] [Faithful E V] in
/-- A copy of a pointer is named. -/
theorem copied {act : Evaluation V Pointer} {p : Pointer} (name : String) (held : Held l s os w)
    (hact : Mirrors l s.faces may (act s.heap) (pure p) Owner.ofPointer id (s.owners + os) w) :
    Follows l may ((Act.run act >>= Act.made name) s) (Plan.made name p) (fun _ => 0) Answer.reply
      os s w :=
  of_plan (run_bind held hact fun _ _ _ held' => made name held') rfl

omit [Faithful E V] in
/-- A pointer is rebuilt from the address of something that is owned. -/
theorem rebuild (name : String) (o : Origin) (n : Nat)
    (hcount : ∀ b, o.target? s.toRegisters = some (b, n) → 0 < s.heap.count b)
    (held : Held l s os w) :
    Follows l may (Act.ofCommand (.rebuild name o n : Command E) s)
      (Plan.ofCommand (.rebuild name o n : Command E)) (fun _ => 0) Answer.reply os s w := by
  have hrun := Origin.originAddress_apply o n s
  have hplan := Origin.rebuilt_apply o n (.of s w)
  have hsame : o.address? n (Plain.of s w).toRegisters = o.address? n s.toRegisters := rfl
  rw [hsame] at hplan
  rcases ha : o.address? n s.toRegisters with e | a
  · rw [ha] at hrun hplan
    exact stopped held (bind_of_error hrun) (Plan.bind_of_error hplan)
  · rw [ha] at hrun hplan
    -- the registers own what the address leads to, and what the origin claims of it is true
    have htarget : ∀ b, a = .block b → o.target? s.toRegisters = some (b, n) := by
      rintro b rfl
      exact Origin.target?_of_address? ha
    have hkeeps : Owner.Keeps (s.owners + os) (a.pointer n) := by
      intro b m hb
      cases a with
      | block c =>
        cases hb
        exact Origin.mem_refs_of_target? (Held.owners_le s os) held.proper (htarget b rfl)
      | sentinel => cases hb
      | zero => cases hb
    have hplan' : Plan.ofCommand (.rebuild name o n : Command E) (.of s w) =
        (pure (a.pointer n) >>= Plan.made name) (.of s w) := Plan.bind_of_ok hplan
    refine of_run (bind_of_ok hrun) (of_plan ?_ hplan')
    have hcount' : ∀ b, a = .block b → 0 < s.heap.count b := fun b hb => hcount b (htarget b hb)
    exact run_bind held (mirrors_rebuild held.stage hkeeps hcount').ofAction fun p h w' held' =>
      made name held'

/-! ## Writing -/

/-- A command that does something with a value and answers with nothing. -/
theorem withValue_done {body : V → Act V Unit} {F : Datum → Plan Unit} (held : Held l s os w)
    (e : E)
    (hbody : ∀ v h w', Held l { s with heap := h } ({.value .caller v} + os) w' →
      Follows l may (body v { s with heap := h }) (F (face v)) (fun _ => 0) id
        ({.value .caller v} + os) { s with heap := h } w') :
    Follows l may ((Act.withValue e body >>= fun _ => pure (Answer.done : Answer V)) s)
      (Plan.value e >>= fun d => F d >>= fun _ => pure .done) (fun _ => 0) Answer.reply os s w := by
  rw [← bind_assoc]
  exact (withValue held e hbody).reply (fun _ => rfl) rfl

theorem set (name : String) (e : E) (hmay : may) (held : Held l s os w) :
    Follows l may (Act.ofCommand (.set name e) s) (Plan.ofCommand (.set name e)) (fun _ => 0)
      Answer.reply os s w := by
  refine handle_bind held fun p hp => ?_
  have hact := withValue_done (F := fun d => Plan.set p d >>= Plan.nameHandle name) held e
    fun v h w' held' => setThrough name held' hp (.inl ⟨.caller, by simp⟩) hmay
  simp only [bind_assoc] at hact
  exact hact

theorem setAt (name : String) (i : Nat) (e : E) (held : Held l s os w) :
    Follows l may (Act.ofCommand (.setAt name i e) s) (Plan.ofCommand (.setAt name i e))
      (fun _ => 0) Answer.reply os s w := by
  refine handle_bind held fun p hp => withValue_done held e fun v h w' held' => ?_
  have hv : Sourced (s.owners + ({.value .caller v} + os)) v := .inl ⟨.caller, by simp⟩
  refine written held' ((ends_setAt held'.stage (held'.keeps hp) i hv).mono ?_ ?_)
  · rintro - h'' ⟨b, hb, st⟩
    refine ⟨_, st, ?_⟩
    rw [Written.cells_put, Plan.setAt, hb]
    rfl
  · rintro f h'' hs
    refine hs.mono (·.imp_left ?_)
    rintro ⟨error, hb, rfl⟩
    rw [Plan.setAt, hb]
    rfl

theorem rawStore (name : String) (i : Nat) (e : E) (held : Held l s os w) :
    Follows l may (Act.ofCommand (.rawStore name i e) s) (Plan.ofCommand (.rawStore name i e))
      (fun _ => 0) Answer.reply os s w := by
  refine rawWithCell_bind held fun u hu hi => withValue_done held e fun v h w' held' => ?_
  have hv : Sourced (s.owners + ({.value .caller v} + os)) v := .inl ⟨.caller, by simp⟩
  refine written held' ((held'.stage.ends_store (held'.mem_raw hu) hi hv).mono ?_ ?_)
  · intro _ h'' st
    refine ⟨_, st, ?_⟩
    rw [Written.cells_put]
    rfl
  · exact fun f h'' hs => hs.mono .inr

omit [Faithful E V] in
theorem swap (a b : String) (held : Held l s os w) :
    Follows l may (Act.ofCommand (.swap a b : Command E) s)
      (Plan.ofCommand (.swap a b : Command E)) (fun _ => 0) Answer.reply os s w := by
  refine handle_bind held fun p hp => handle_bind held fun q hq => ?_
  have hkeeps := held.keeps hp
  have hkeeps' := held.keeps hq
  have hact : Follows l may (Act.perform (p.swap q) s) (Plan.swap p q) (fun _ => 0) id os s w := by
    refine written held ((ends_swap held.stage hkeeps hkeeps').mono ?_ ?_)
    · rintro - h' ⟨b, c, hb, hc, st⟩
      obtain ⟨n, rfl⟩ := Pointer.scalar?_eq_ok hb
      obtain ⟨m, rfl⟩ := Pointer.scalar?_eq_ok hc
      obtain ⟨xs, hxs, rfl, hn⟩ := held.stage.exists_entry (hkeeps b n rfl)
      obtain ⟨ys, hys, rfl, hm⟩ := held.stage.exists_entry (hkeeps' c m rfl)
      -- the two cells may be one and the same, then the second entry puts back the first
      refine ⟨_, st, ?_⟩
      rw [Written.cells_exchange hxs hn hys hm, Plan.swap, hb, hc]
      rfl
    · rintro f h' hs
      refine hs.mono fun hcause => .inl ?_
      obtain ⟨e, hb, rfl⟩ | ⟨b, e, hb, hc, rfl⟩ := hcause
      · rw [Plan.swap, hb]
        rfl
      · rw [Plan.swap, hb, hc]
        rfl
  exact hact.reply (fun _ => rfl) rfl

omit [Faithful E V] in
theorem rawSwap (a : String) (i : Nat) (b : String) (j : Nat) (held : Held l s os w) :
    Follows l may (Act.ofCommand (.rawSwap a i b j : Command E) s)
      (Plan.ofCommand (.rawSwap a i b j : Command E)) (fun _ => 0) Answer.reply os s w := by
  refine rawWithCell_bind held fun u hu hi => rawWithCell_bind held fun v hv hj => ?_
  have hmem := held.mem_raw hu
  have hmem' := held.mem_raw hv
  obtain ⟨xs, hxs, hn, -⟩ := held.stage.exists_entry hmem
  obtain ⟨ys, hys, hm, -⟩ := held.stage.exists_entry hmem'
  have st := held.stage.swap hmem hi hmem' hj
  have hcells := Written.cells_exchange hxs (hn ▸ hi) hys (hm ▸ hj)
  refine ends_of_ok (a := .done) rfl ⟨_, held.withHeap (st.reown (by rw [zero_add])), ?_⟩
  show _ = Except.ok (Reply.done, Plain.mk s.faces (Written.cells _))
  rw [hcells]
  rfl

/-! ## Raw blocks -/

theorem rawAllocate (name : String) (n : Nat) (hmay : may) (held : Held l s os w) :
    Follows l may (Act.ofCommand (.rawAllocate name n : Command E) s)
      (Plan.ofCommand (.rawAllocate name n : Command E)) (fun _ => 0) Answer.reply os s w := by
  have hact : Mirrors l s.faces may (Heap.allocate n s.heap)
      (Plan.make (List.replicate n (blank E))) (fun b => {.ref (.block b n)}) id (s.owners + os)
      w := by
    refine (held.stage.ends_allocate n).mono ?_ ?_
    · rintro b h ⟨hpos, rfl, st⟩
      refine ⟨_, List.prefix_append _ _, st, ?_⟩
      have hne : List.replicate n (blank E) ≠ [] := by
        rw [Ne, List.replicate_eq_nil_iff]
        exact Nat.ne_of_gt hpos
      rw [Plan.make, if_neg hne, Written.cells_append, Written.length_cells]
      simp [Written.cells, facesOf, Faithful.blank_eq]
    · rintro f h hs
      refine hs.mono fun hf => .inl ?_
      rcases refusal_cases hf with ⟨rfl, rfl⟩ | hrefusal
      · exact .inl rfl
      · exact .inr ⟨hmay, hrefusal⟩
  refine run_bind held hact.ofAction fun b h w' held' => ?_
  exact (nameRaw name Nat.one_pos held').reply (fun _ => rfl) rfl

omit [Faithful E V] in
theorem rawOf (handle name : String) (held : Held l s os w) :
    Follows l may (Act.ofCommand (.rawOf handle name : Command E) s)
      (Plan.ofCommand (.rawOf handle name : Command E)) (fun _ => 0) Answer.reply os s w := by
  refine handle_bind held fun p hp => ?_
  cases p with
  | null => exact stopped held rfl rfl
  | cells b n =>
    refine run_then held (mirrors_retain held.stage (held.keeps hp b n rfl)).ofAction
      fun h w' held' => ?_
    exact (nameRaw name Nat.one_pos held').reply (fun _ => rfl) rfl

omit [Faithful E V] in
theorem rawRetain (name : String) (held : Held l s os w) :
    Follows l may (Act.ofCommand (.rawRetain name : Command E) s)
      (Plan.ofCommand (.rawRetain name : Command E)) (fun _ => 0) Answer.reply os s w := by
  refine raw_bind held fun u hu => ?_
  refine run_then held (mirrors_retain held.stage (held.mem_raw hu)).ofAction fun h w' held' => ?_
  let next : RawBlock := { u with owned := u.owned + 1 }
  have hproper : Registers.Proper { s.toRegisters with raws := Entries.put name next s.raws } :=
    held'.proper.putRaw (Nat.succ_pos u.owned)
  refine ends_of_ok (a := .done) rfl ⟨w', held'.withRegisters hproper ?_, rfl⟩
  -- the reference that was taken joins those that the raw block has
  have hremove : s.owners = Owner.ofRaw u +
      Registers.owners { s.toRegisters with raws := Entries.remove name s.raws } := by
    rw [← Registers.owners_removeRaw s.toRegisters name, hu]
    rfl
  have hraw : (Owner.ofRaw ⟨u.block, u.size, u.owned + 1⟩ : Multiset (Owner V)) =
      Owner.ofRaw u + {.ref (.block u.block u.size)} := by
    have := Owner.ofRaw_succ_add u.block u.size u.owned (0 : Multiset (Owner V))
    rwa [add_zero, add_zero] at this
  show s.owners + _ = _
  rw [Registers.owners_putRaw, hraw, hremove]
  abel

/-! ## Owners that go away -/

omit [Faithful E V] in
theorem drop (name : String) (held : Held l s os w) :
    Follows l may (Act.ofCommand (.drop name : Command E) s)
      (Plan.ofCommand (.drop name : Command E)) (fun _ => 0) Answer.reply os s w := by
  refine handle_bind held fun p hp => ?_
  let rest : Registers V := { s.toRegisters with handles := Entries.remove name s.handles }
  have hs : s.owners = Owner.ofPointer p + rest.owners := by
    rw [← Registers.owners_removeHandle s.toRegisters name, hp]
    rfl
  have held' : Held l { s with toRegisters := rest } (Owner.ofPointer p + os) w :=
    held.withRegisters held.proper (by rw [hs]; abel)
  refine ends_of_ok (a := .done) rfl ⟨w, (held'.giveBack fun _ _ _ => Stage.dropPointer).reown ?_,
    rfl⟩
  exact (zero_add os).symm

omit [Expression E V] [Meaning E] [Faithful E V] in
/-- A variable is removed, and its value given back in one way or another. -/
theorem takeVariable {last : V → Heap V → Heap V} (name : String) (held : Held l s os w)
    (hlast : ∀ v h os' w', Stage l h ({.value .caller v} + os') w' → Stage l (last v h) os' w') :
    Follows l may
      ((do
        let v ← Act.takeVariable name
        Act.updateHeap (last v)
        pure Answer.done : Act V (Answer V)) s)
      (Plan.takeVariable name >>= fun _ => pure .done) (fun _ => 0) Answer.reply os s w := by
  rw [Act.takeVariable]
  simp only [bind_assoc, pure_bind]
  refine of_plan (variable_bind (F := fun _ => do
    Plan.update fun p => { p with values := Entries.remove name p.values }
    pure .done) held fun v hv => ?_) ?_
  · let rest : Registers V := { s.toRegisters with values := Entries.remove name s.values }
    have hs : s.owners = {.value .caller v} + rest.owners := by
      rw [← Registers.owners_removeVariable s.toRegisters name, hv]
      rfl
    have held' : Held l { s with toRegisters := rest } ({.value .caller v} + os) w :=
      held.withRegisters held.proper (by rw [hs]; abel)
    refine ends_of_ok (a := .done) rfl ⟨w, (held'.giveBack (hlast v)).reown (zero_add os).symm,
      ?_⟩
    have hfaces : rest.faces =
        { s.faces with values := Entries.remove name s.faces.values } := by
      simp only [Registers.faces, rest, Entries.mapValues_remove]
    show _ = Except.ok (Reply.done, Plain.mk rest.faces w.cells)
    rw [hfaces]
    rfl
  · simp only [Plan.takeVariable, bind_assoc, pure_bind]

/-! ## All commands -/

/-- Every command that sets no count by hand follows its plan. -/
theorem command (c : Command E) (held : Held l s os w) (hsteady : c.Steady)
    (hsensible : c.Sensible s) (heffective : c.Effective s) :
    Follows l c.MakesCells (Act.ofCommand c s) (Plan.ofCommand c) (fun _ => 0) Answer.reply os
      s w := by
  cases c with
  | null name => exact made name (held.reown (zero_add os).symm)
  | allocate name e => exact allocate name e trivial held
  | allocateCount name n => exact allocateCount name n trivial held
  | allocateValues name es => exact allocateValues name es trivial held
  | bind name source =>
    exact handle_bind held fun p hp =>
      copied name held (mirrors_bind held.stage (held.keeps hp)).ofAction
  | copy name source =>
    exact handle_bind held fun p hp =>
      copied name held (mirrors_copy held.stage (held.keeps hp)).ofAction
  | rebuild name o n => exact rebuild name o n hsensible held
  | drop name => exact drop name held
  | get name keep =>
    exact handle_bind held fun p hp =>
      run_bind held (mirrors_get held.stage (held.keeps hp)).ofAction fun v h w' => answerValue keep
  | set name e => exact set name e trivial held
  | getAt name i keep =>
    exact handle_bind held fun p hp =>
      run_bind held (mirrors_getAt held.stage (held.keeps hp) i).ofAction fun v h w' =>
        answerValue keep
  | setAt name i e => exact setAt name i e held
  | swap a b => exact swap a b held
  | toList name =>
    refine handle_bind held fun p hp => ?_
    refine (run held (mirrors_toList held.stage (held.keeps hp)).ofAction).map Reply.data
      fun vs s' w' held' => ⟨.values vs, s'.mapHeap (·.dropAll vs), rfl, rfl, ?_, rfl⟩
    exact (held'.giveBack fun _ _ _ => Stage.dropAll).reown (zero_add os).symm
  | inspect name =>
    exact handle_bind held fun p hp =>
      done (a := .inspected p (p.refCount s.heap)) (held.reown (zero_add os).symm) rfl rfl
  | compare a b =>
    exact handle_bind held fun p hp => handle_bind held fun q hq =>
      done (a := .compared p q) (held.reown (zero_add os).symm) rfl rfl
  | handleSet names =>
    refine (collect names [] (held.reown (zero_add os).symm)).map
      (fun x => Reply.members x.1 x.2.length) ?_
    rintro ⟨fresh, members⟩ s' w' held'
    refine ⟨.members fresh members.length,
      s'.mapHeap fun h => members.foldl Heap.dropPointer h, rfl, rfl, ?_, rfl⟩
    exact (held'.giveBack fun _ _ _ => Stage.dropPointers).reown (zero_add os).symm
  | define name e =>
    refine run_bind held (mirrors_value held e) fun v h w' held' => ?_
    exact (nameVariable name held').reply (fun _ => rfl) rfl
  | acquire name keep =>
    refine variable_bind held fun v hv => ?_
    exact run_then held (mirrors_acquire held.stage (held.sourced hv) .caller).ofAction
      fun h w' => answerValue keep
  | disown name => exact takeVariable name held fun v _ _ _ => Stage.disown
  | forget name => exact takeVariable name held fun v _ _ _ => Stage.drop
  | evaluate es =>
    refine withValues held es fun vs h w' held' => ?_
    exact done (a := .values vs) (held'.reown (zero_add _).symm) rfl rfl
  | rawAllocate name n => exact rawAllocate name n trivial held
  | rawOf source name => exact rawOf source name held
  | rawRetain name => exact rawRetain name held
  | rawRelease name =>
    refine raw_bind held fun u hu => ?_
    refine (releaseRaw name held hu (heffective u hu)).map (fun _ => Reply.other)
      fun r s' w' held' => ⟨.released r, s', rfl, rfl, held', rfl⟩
  | rawStore name i e => exact rawStore name i e held
  | rawRead name i keep =>
    refine rawWithCell_bind held fun u hu hi => ?_
    exact run_bind held (mirrors_read held.stage (held.mem_raw hu) hi).ofAction fun v h w' =>
      answerValue keep
  | rawSwap a i b j => exact rawSwap a i b j held
  | rawCount name i =>
    exact rawWithCell_bind held fun u hu hi =>
      done (a := .cellCount (s.heap.countAt u.block i)) (held.reown (zero_add os).symm) rfl rfl
  | rawExpire name => exact hsteady.elim
  | rawRestore name n => exact hsteady.elim
  | stats => exact done (a := .stats s.heap.stats) (held.reown (zero_add os).symm) rfl rfl
  | configure config =>
    refine ends_of_ok (a := .done) rfl ⟨w, ?_, rfl⟩
    exact held.withHeap ((held.stage.step (.configure config)).reown (by rw [zero_add]))
  | config => exact done (a := .config s.heap.config) (held.reown (zero_add os).symm) rfl rfl
  | stability => exact done (a := .truth s.heap.stable) (held.reown (zero_add os).symm) rfl rfl

end Follows

/-! ## Commands on values -/

/-- What an answer to a command on values tells that does not depend on counts. -/
def ValueAnswer.reply : ValueAnswer → Reply
  | .common a => a.reply
  | .truth b => .truth b
  | .walked hops v => .walked hops v.datum
  | .count _ | .verdict _ => .other

namespace ValueCommand

/-- The command sets no count by hand. -/
def Steady : ValueCommand → Prop
  | .common c => c.Steady
  | _ => True

/-- The command makes blocks, and may be refused for want of room. -/
def MakesCells : ValueCommand → Prop
  | .common c => c.MakesCells
  | .chain _ _ _ => True
  | _ => False

/-- A pointer is rebuilt only where the block has a count. -/
def Sensible (c : ValueCommand) (s : Session Value) : Prop :=
  match c with
  | .common c => c.Sensible s
  | _ => True

/-- A raw block gives back a reference only where the block has a count. -/
def Effective (c : ValueCommand) (s : Session Value) : Prop :=
  match c with
  | .common c => c.Effective s
  | _ => True

end ValueCommand

namespace Follows

variable {l : Ledger Value} {may : Prop} {s : Session Value} {os : Multiset (Owner Value)}
  {w : Written Value}

/-- A pointer that was made for a command on values is named. -/
theorem made_common {p : Pointer} (name : String) (held : Held l s (Owner.ofPointer p + os) w) :
    Follows l may ((Act.made name p >>= fun a => pure (.common a)) s) (Plan.made name p)
      (fun _ => 0) ValueAnswer.reply os s w := by
  refine of_plan ((made name held).map (fun r => r) fun a s' w' held' => ?_) (bind_pure _).symm
  exact ⟨.common a, s', rfl, rfl, held', rfl⟩

theorem equals (name : String) (t : Term) (held : Held l s os w) :
    Follows l may (Act.ofValueCommand (.equals name t) s) (Plan.ofValueCommand (.equals name t))
      (fun _ => 0) ValueAnswer.reply os s w := by
  refine handle_bind held fun p hp => withValue held t fun v h w' held' => ?_
  obtain ⟨d, payload, hd⟩ := v
  cases d with
  | pointer q => exact done (a := .truth (p.same q)) (held'.reown (zero_add _).symm) rfl rfl
  | _ => exact stopped held' rfl rfl

theorem load (name source : String) (held : Held l s os w) :
    Follows l may (Act.ofValueCommand (.load name source) s)
      (Plan.ofValueCommand (.load name source)) (fun _ => 0) ValueAnswer.reply os s w := by
  refine handle_bind held fun p hp => ?_
  refine run_bind held (mirrors_get held.stage (held.keeps hp)).ofAction fun v h w' held' => ?_
  by_cases hv : ∃ q, v.datum = .pointer q
  · obtain ⟨q, hq⟩ := hv
    have hkeeps : Owner.Keeps ({.value .caller v} + (s.owners + os)) q := keeps_of_datum hq .caller
    have st : Stage l h ({.value .caller v} + (s.owners + os)) w' :=
      held'.stage.reown (add_left_comm _ _ _)
    have hcopy : Mirrors l s.faces may ((Evaluation.ofAction q.copy).andFinally (·.drop v) h)
        (pure q) Owner.ofPointer id (s.owners + os) w' :=
      (mirrors_copy st hkeeps).ofAction.andFinally fun _ _ _ => Stage.drop
    have hnamed := run_bind held' hcopy fun _ _ _ held'' => made_common name held''
    -- the match on the datum can be seen through only now that the value is taken apart
    obtain ⟨d, payload, hd⟩ := v
    cases hq
    exact hnamed
  · obtain ⟨d, payload, hd⟩ := v
    cases d with
    | pointer q => exact absurd ⟨q, rfl⟩ hv
    | _ =>
      refine ends_of_error (bind_of_error rfl) ⟨w', held'.giveBack fun _ _ _ => Stage.drop, ?_⟩
      exact .of_plan rfl rfl

theorem chain (name : String) (n : Nat) (t : Term) (hmay : may) (held : Held l s os w) :
    Follows l may (Act.ofValueCommand (.chain name n t) s)
      (Plan.ofValueCommand (.chain name n t)) (fun _ => 0) ValueAnswer.reply os s w := by
  simp only [Act.ofValueCommand, Act.withValue, bind_assoc]
  refine run_bind held (mirrors_value held t) fun v h w' held' => ?_
  have st : Stage l h ({.value .caller v} + (s.owners + os)) w' :=
    held'.stage.reown (add_left_comm _ _ _)
  have hsource : Sourced ({.value .caller v} + (s.owners + os)) v := .inl ⟨.caller, by simp⟩
  have hchain : Mirrors l s.faces may ((Evaluation.ofAction (v.chain n)).andFinally (·.drop v) h)
      (do Plan.chainOn (n - 1) (← Plan.fresh [face v])) Owner.ofPointer id (s.owners + os) w' :=
    (mirrors_chain n hsource hmay st).ofAction.andFinally fun _ _ _ => Stage.drop
  have hnamed := run_bind held' hchain fun _ _ _ held'' => made_common name held''
  rw [bind_assoc] at hnamed
  exact hnamed

theorem walk (name : String) (limit : Nat) (held : Held l s os w) :
    Follows l may (Act.ofValueCommand (.walk name limit) s)
      (Plan.ofValueCommand (.walk name limit)) (fun _ => 0) ValueAnswer.reply os s w := by
  refine handle_bind held fun p hp => ?_
  refine run_bind held (mirrors_get held.stage (held.keeps hp)).ofAction fun v h w' held' => ?_
  have st : Stage l h ({.value .caller v} + (s.owners + os)) w' :=
    held'.stage.reown (add_left_comm _ _ _)
  refine run_bind held' (mirrors_follow limit 0 v st).ofAction fun x h' w'' held'' => ?_
  refine updateHeap_bind held'' (fun _ _ _ => Stage.drop) fun held₁ => ?_
  exact done (a := .walked x.1 x.2) (held₁.reown (zero_add os).symm) rfl rfl

/-- Every command on values that sets no count by hand follows its plan. -/
theorem valueCommand (c : ValueCommand) (held : Held l s os w) (hsteady : c.Steady)
    (hsensible : c.Sensible s) (heffective : c.Effective s) :
    Follows l c.MakesCells (Act.ofValueCommand c s) (Plan.ofValueCommand c) (fun _ => 0)
      ValueAnswer.reply os s w := by
  cases c with
  | common c =>
    have hact := command c held hsteady hsensible heffective
    refine of_plan (hact.map (fun r => r) fun a s' w' held' => ?_) (bind_pure _).symm
    exact ⟨.common a, s', rfl, rfl, held', rfl⟩
  | equals name t => exact equals name t held
  | load name source => exact load name source held
  | chain name n t => exact chain name n t trivial held
  | walk name limit => exact walk name limit held
  | sharers name =>
    exact variable_bind held fun v hv =>
      done (a := .count (v.sharers s.heap)) (held.reown (zero_add os).symm) rfl rfl
  | samePayload x y =>
    exact variable_bind held fun v hv => variable_bind held fun u hu =>
      done (a := .verdict (v.samePayload u)) (held.reown (zero_add os).symm) rfl rfl

end Follows
end CountedCells

import CountedCells.Proofs.Terms

/-!
# Follow: commands carry out their plans

On a session, an act `Follows` a plan: it succeeds where the plan does, with the same reply,
registers and cells, and fails where the plan fails, or else for want of room, or because of a block
that has no count, or one that is too high to be raised. A failure leaves the registers as they were
and all cells there were before; only if a block is to blame, a null pointer may have got its cell
before the write through it failed.
`Held` tells who owns what at that point: the registers, and whoever else is mentioned.

The rules here take an act apart in the way it is written. An act that only works on the heap
mirrors its plan; what is looked up in the registers is owned by them; and a value that a command
takes for its own use is there until its body has ended, one way or the other.
-/

namespace CountedCells

open Attempt

variable {V : Type} [Host V] [Faced V]

namespace Act

omit [Host V] [Faced V]

theorem run_change {α : Type} {s : Session V} {f : Heap V → α × Heap V} {a : α} {h : Heap V}
    (hrun : f s.heap = (a, h)) : run (.change f) s = (.ok a, { s with heap := h }) := by
  rw [run, change_apply, hrun]

/-- What is put right after work on the heap is part of the work. -/
theorem orElseUndo_run {α : Type} (act : Evaluation V α) (undo : Heap V → Heap V) :
    (run act).orElseUndo (·.mapHeap undo) = run (act.orElseUndo undo) := by
  funext s
  simp only [Attempt.orElseUndo, run]
  rcases hrun : act s.heap with ⟨outcome, h⟩
  cases outcome <;> simp only [Session.mapHeap]

end Act

/-- The registers of a session and others are the owners outside the heap. -/
structure Held (l : Ledger V) (s : Session V) (os : Multiset (Owner V)) (w : Written V) : Prop where
  /-- the ledger has come to this heap and these owners -/
  stage : Stage l s.heap (s.owners + os) w
  /-- raw blocks are there for their references -/
  proper : s.Proper

/-- A session as a plain store. -/
def Plain.of (s : Session V) (w : Written V) : Plain := ⟨s.faces, w.cells⟩

omit [Host V] [Faced V] in
/-- The registers are the same, but for a handle that was null and has got a cell made since. -/
def Registers.Upgrades (r : Registers V) (made : Nat) (r' : Registers V) : Prop :=
  r' = r ∨ ∃ name b, r.handles.lookup name = some .null ∧ made ≤ b ∧
    r' = { r with handles := Entries.put name (.cells b 1) r.handles }

theorem Registers.Upgrades.faces {r r' : Registers V} {made : Nat} (hr : r.Upgrades made r') :
    r.faces.Upgrades made r'.faces := by
  obtain rfl | ⟨name, b, hnull, hmade, rfl⟩ := hr
  · exact .inl rfl
  · exact .inr ⟨name, b, hnull, hmade, rfl⟩

/-- An act failed, and nothing that was written was changed. The plan fails as well, or there was no
room, and the registers are as they were. Or else a block is to blame. -/
def Fails {β : Type} (l : Ledger V) (may : Prop) (plan : Plan β) (s : Session V) (w : Written V)
    (f : Failure) (s' : Session V) (w' : Written V) : Prop :=
  w <+: w' ∧ (s'.toRegisters = s.toRegisters ∧ (plan (.of s w) = .error f ∨ may ∧ f.IsRefusal) ∨
    l.Blames f ∧ s.toRegisters.Upgrades w.length s'.toRegisters)

/-- An act does to a session what a plan does to a plain store. -/
def Follows {α β : Type} (l : Ledger V) (may : Prop) (out : Except Failure α × Session V)
    (plan : Plan β) (own : α → Multiset (Owner V)) (view : α → β) (os : Multiset (Owner V))
    (s : Session V) (w : Written V) : Prop :=
  Ends out
    (fun a s' => ∃ w', Held l s' (own a + os) w' ∧ plan (.of s w) = .ok (view a, .of s' w'))
    (fun f s' => ∃ w', Held l s' os w' ∧ Fails l may plan s w f s' w')

namespace Fails

variable {β β' : Type} {l : Ledger V} {may : Prop} {plan : Plan β} {s s₁ s' : Session V}
  {w w₁ w' : Written V} {f : Failure}

/-- The plan fails as well. -/
theorem of_plan (hplan : plan (.of s w) = .error f) (hs : s'.toRegisters = s.toRegisters) :
    Fails l may plan s w f s' w :=
  ⟨List.prefix_rfl, .inl ⟨hs, .inl hplan⟩⟩

/-- An operation on the heap has failed. -/
theorem of_heap (hw : w <+: w') (hs : s'.toRegisters = s.toRegisters)
    (hcause : (plan (.of s w) = .error f ∨ may ∧ f.IsRefusal) ∨ l.Blames f) :
    Fails l may plan s w f s' w' :=
  ⟨hw, hcause.imp (⟨hs, ·⟩) (⟨·, .inl hs⟩)⟩

/-- What comes after is not carried out. -/
theorem bind (hfails : Fails l may plan s w f s' w') (F : β → Plan β') :
    Fails l may (plan >>= F) s w f s' w' :=
  ⟨hfails.1, hfails.2.imp_left fun h => ⟨h.1, h.2.imp_left Plan.bind_of_error⟩⟩

/-- The first part of a plan has been carried out, and the second part fails. -/
theorem after {F : β → Plan β'} {b : β} (hfails : Fails l may (F b) s₁ w₁ f s' w')
    (hplan : plan (.of s w) = .ok (b, .of s₁ w₁)) (hs : s₁.toRegisters = s.toRegisters)
    (hw : w <+: w₁) : Fails l may (plan >>= F) s w f s' w' := by
  refine ⟨hw.trans hfails.1, hfails.2.imp (fun h => ?_) fun h => ⟨h.1, ?_⟩⟩
  · exact ⟨h.1.trans hs, h.2.imp_left (Plan.bind_of_ok hplan).trans⟩
  · rw [← hs]
    refine h.2.imp_right ?_
    rintro ⟨name, b, hname, hb, hput⟩
    exact ⟨name, b, hname, hw.length_le.trans hb, hput⟩

end Fails

namespace Held

variable {l : Ledger V} {s : Session V} {os os' : Multiset (Owner V)} {w w' : Written V}

/-- The heap is worked on, the registers stay. -/
theorem withHeap (held : Held l s os w) {h : Heap V} (st : Stage l h (s.owners + os') w') :
    Held l { s with heap := h } os' w' :=
  ⟨st, held.proper⟩

theorem reown (held : Held l s os w) (hos : os = os') : Held l s os' w := hos ▸ held

/-- The registers are changed, and what is owned stays the same. -/
theorem withRegisters (held : Held l s os w) {r : Registers V} (hproper : r.Proper)
    (howners : s.owners + os = r.owners + os') : Held l { s with toRegisters := r } os' w :=
  ⟨held.stage.reown howners, hproper⟩

/-- Something is given back. -/
theorem giveBack {last : Heap V → Heap V} {extra : Multiset (Owner V)}
    (held : Held l s (extra + os) w)
    (hlast : ∀ h os' w', Stage l h (extra + os') w' → Stage l (last h) os' w') :
    Held l (s.mapHeap last) os w :=
  ⟨hlast _ _ _ (held.stage.reown (add_left_comm _ _ _)), held.proper⟩

omit [Host V] [Faced V] in
theorem owners_le (s : Session V) (os : Multiset (Owner V)) : s.owners ≤ s.owners + os :=
  Multiset.le_add_right _ _

theorem keeps (_held : Held l s os w) {name : String} {p : Pointer}
    (hp : s.handles.lookup name = some p) : Owner.Keeps (s.owners + os) p :=
  Registers.keeps_handle (owners_le s os) hp

theorem sourced (_held : Held l s os w) {name : String} {v : V}
    (hv : s.values.lookup name = some v) : Sourced (s.owners + os) v :=
  .inl ⟨.caller, Registers.mem_variable (owners_le s os) hv⟩

theorem mem_raw (held : Held l s os w) {name : String} {u : RawBlock}
    (hu : s.raws.lookup name = some u) : .block u.block u.size ∈ Owner.refs (s.owners + os) :=
  Registers.mem_refs_raw (owners_le s os) held.proper hu

end Held

namespace Follows

variable {α β α' β' : Type} {l : Ledger V} {may : Prop} {s : Session V}
  {os : Multiset (Owner V)} {w : Written V}

/-- Nothing is left to do. -/
theorem done {out : Except Failure α × Session V} {plan : Plan β} {own : α → Multiset (Owner V)}
    {view : α → β} {a : α} (held : Held l s (own a + os) w) (hrun : out = (.ok a, s))
    (hplan : plan (.of s w) = .ok (view a, .of s w)) : Follows l may out plan own view os s w :=
  ends_of_ok hrun ⟨w, held, hplan⟩

/-- Nothing is done, because the plan cannot be carried out. -/
theorem stopped {out : Except Failure α × Session V} {plan : Plan β}
    {own : α → Multiset (Owner V)} {view : α → β} {f : Failure} (held : Held l s os w)
    (hrun : out = (.error f, s)) (hplan : plan (.of s w) = .error f) :
    Follows l may out plan own view os s w :=
  ends_of_error hrun ⟨w, held, .of_plan hplan rfl⟩

theorem of_run {out out' : Except Failure α × Session V} {plan : Plan β}
    {own : α → Multiset (Owner V)} {view : α → β} (hrun : out = out')
    (hout : Follows l may out' plan own view os s w) : Follows l may out plan own view os s w :=
  hrun ▸ hout

/-- Only what the plan does to this store matters. -/
theorem of_plan {out : Except Failure α × Session V} {plan plan' : Plan β}
    {own : α → Multiset (Owner V)} {view : α → β} (hout : Follows l may out plan own view os s w)
    (hplan : plan' (.of s w) = plan (.of s w)) : Follows l may out plan' own view os s w := by
  unfold Follows Fails at hout ⊢
  rwa [hplan]

/-- An act that only works on the heap. -/
theorem run {act : Evaluation V α} {plan : Plan β} {own : α → Multiset (Owner V)} {view : α → β}
    (held : Held l s os w)
    (hact : Mirrors l s.faces may (act s.heap) plan own view (s.owners + os) w) :
    Follows l may (Act.run act s) plan own view os s w := by
  rw [Act.run]
  rcases hrun : act s.heap with ⟨outcome, h⟩
  rw [hrun] at hact
  cases outcome with
  | ok a =>
    obtain ⟨w', -, st, hplan⟩ := hact
    exact ⟨w', held.withHeap (st.reown (add_left_comm _ _ _)), hplan⟩
  | error f =>
    obtain ⟨w', hw, st, hcause⟩ := hact
    exact ⟨w', held.withHeap st, .of_heap hw rfl hcause⟩

/-- What is known after an act on the heap is where the rest starts from. -/
theorem run_bind {act : Evaluation V α} {f : α → Act V α'} {plan : Plan β} {F : β → Plan β'}
    {own : α → Multiset (Owner V)} {view : α → β} {own' : α' → Multiset (Owner V)}
    {view' : α' → β'} {os₀ : Multiset (Owner V)} (held : Held l s os₀ w)
    (hact : Mirrors l s.faces may (act s.heap) plan own view (s.owners + os) w)
    (hf : ∀ a h w', Held l { s with heap := h } (own a + os) w' →
      Follows l may (f a { s with heap := h }) (F (view a)) own' view' os { s with heap := h } w') :
    Follows l may ((Act.run act >>= f) s) (plan >>= F) own' view' os s w := by
  rcases hrun : act s.heap with ⟨outcome, h⟩
  rw [hrun] at hact
  cases outcome with
  | ok a =>
    have hok : Act.run act s = (.ok a, { s with heap := h }) := by rw [Act.run, hrun]
    obtain ⟨w', hw, st, hplan⟩ := hact
    rw [bind_of_ok hok]
    refine (hf a h w' (held.withHeap (st.reown (add_left_comm _ _ _)))).mono ?_ ?_
    · rintro a' s' ⟨w'', held', hplan'⟩
      exact ⟨w'', held', (Plan.bind_of_ok hplan).trans hplan'⟩
    · rintro f' s' ⟨w'', held', hfails⟩
      exact ⟨w'', held', hfails.after hplan rfl hw⟩
  | error f' =>
    have herror : Act.run act s = (.error f', { s with heap := h }) := by rw [Act.run, hrun]
    obtain ⟨w', hw, st, hcause⟩ := hact
    rw [bind_of_error herror]
    exact ⟨w', held.withHeap st, (Fails.of_heap hw rfl hcause).bind F⟩

/-- Work on the heap that the plan knows nothing of. -/
theorem run_then {act : Evaluation V Unit} {f : Unit → Act V α} {plan : Plan β}
    {taken : Multiset (Owner V)} {own : α → Multiset (Owner V)} {view : α → β}
    (held : Held l s os w)
    (hact : Mirrors l s.faces may (act s.heap) (pure ()) (fun _ => taken) id (s.owners + os) w)
    (hf : ∀ h w', Held l { s with heap := h } (taken + os) w' →
      Follows l may (f () { s with heap := h }) plan own view os { s with heap := h } w') :
    Follows l may ((Act.run act >>= f) s) plan own view os s w :=
  run_bind (F := fun _ => plan) held hact fun _ h w' held' => hf h w' held'

/-- An act that looks something up. -/
theorem find_bind {g : Session V → Except Failure α} {f : α → Act V α'}
    {g' : Plain → Except Failure β} {F : β → Plan β'} {view : α → β}
    {own' : α' → Multiset (Owner V)} {view' : α' → β'} (held : Held l s os w)
    (hg : g' (.of s w) = (g s).map view)
    (hf : ∀ a, g s = .ok a → Follows l may (f a s) (F (view a)) own' view' os s w) :
    Follows l may ((Attempt.find g >>= f) s) (Plan.find g' >>= F) own' view' os s w := by
  rcases hgs : g s with e | a
  · rw [hgs] at hg
    refine stopped held (bind_of_error ?_) (Plan.bind_of_error (Plan.find_of_error hg))
    rw [find_apply, hgs]
  · rw [hgs] at hg
    have hok : Attempt.find g s = (.ok a, s) := by rw [find_apply, hgs]
    have hfound : Plan.find g' (.of s w) = .ok (view a, .of s w) := Plan.find_of_ok hg
    rw [bind_of_ok hok]
    exact (hf a hgs).of_plan (Plan.bind_of_ok hfound)

/-- An act, and what is made of its result without failing or changing a name. -/
theorem map {act : Act V α} {plan : Plan β} {own : α → Multiset (Owner V)} {view : α → β}
    {f : α → Act V α'} {own' : α' → Multiset (Owner V)} {view' : α' → β'} (F : β → β')
    (hact : Follows l may (act s) plan own view os s w)
    (hf : ∀ a s' w', Held l s' (own a + os) w' → ∃ a' s'', f a s' = (.ok a', s'') ∧
      s''.toRegisters = s'.toRegisters ∧ Held l s'' (own' a' + os) w' ∧ view' a' = F (view a)) :
    Follows l may ((act >>= f) s) (plan >>= fun b => pure (F b)) own' view' os s w := by
  refine Ends.bind (hact.mono (fun _ _ => id) ?_) ?_
  · rintro e s' ⟨w', held, hfails⟩
    exact ⟨w', held, hfails.bind _⟩
  · rintro a s' ⟨w', held, hplan⟩
    obtain ⟨a', s'', hrun, hregisters, held', hview⟩ := hf a s' w' held
    refine ends_of_ok hrun ⟨w', held', ?_⟩
    have hplain : Plain.of s'' w' = .of s' w' := by rw [Plain.of, hregisters, Plain.of]
    rw [Plan.bind_of_ok hplan, hview, hplain]
    rfl

/-- An act whose result is not looked at any more. -/
theorem reply {act : Act V α} {plan : Plan β} {own : α → Multiset (Owner V)} {view : α → β}
    {a' : α'} {b' : β'} {view' : α' → β'} (hact : Follows l may (act s) plan own view os s w)
    (hown : ∀ a, own a = 0) (hview : view' a' = b') :
    Follows l may ((act >>= fun _ => pure a') s) (plan >>= fun _ => pure b') (fun _ => 0) view'
      os s w :=
  hact.map (fun _ => b') fun a s' _ held =>
    ⟨a', s', rfl, rfl, held.reown (by rw [hown]), hview⟩

/-- Something is given back in between. -/
theorem updateHeap_bind {g : Heap V → Heap V} {f : Unit → Act V α} {plan : Plan β}
    {own : α → Multiset (Owner V)} {view : α → β} {extra os₀ : Multiset (Owner V)}
    (held : Held l s (extra + os₀) w)
    (hg : ∀ h os' w', Stage l h (extra + os') w' → Stage l (g h) os' w')
    (hf : Held l (s.mapHeap g) os₀ w →
      Follows l may (f () (s.mapHeap g)) plan own view os (s.mapHeap g) w) :
    Follows l may ((Act.updateHeap g >>= f) s) plan own view os s w :=
  hf (held.giveBack hg)

/-- An act that writes to cells. -/
theorem written {act : Action V Unit} {plan : Plan Unit} (held : Held l s os w)
    (hact : Ends (act s.heap)
      (fun _ h => ∃ w', Stage l h (s.owners + os) w' ∧
        plan (.of s w) = .ok ((), ⟨s.faces, Written.cells w'⟩))
      (Stops l (s.owners + os) w fun f =>
        plan (.of s w) = .error (.fault f) ∨ l.Blames (.fault f))) :
    Follows l may (Act.perform act s) plan (fun _ => 0) id os s w := by
  rw [Act.perform, Act.run, Evaluation.ofAction]
  rcases hrun : act s.heap with ⟨outcome, h⟩
  rw [hrun] at hact
  cases outcome with
  | ok a =>
    obtain ⟨w', st, hplan⟩ := hact
    exact ⟨w', held.withHeap (st.reown (by rw [zero_add])), hplan⟩
  | error f =>
    obtain ⟨w', hw, st, hcause⟩ := hact
    exact ⟨w', held.withHeap st, .of_heap hw rfl (hcause.imp_left .inl)⟩

/-- Something that is owned for the time of an act is given back after it. -/
theorem andFinally {act : Act V α} {last : Heap V → Heap V} {plan : Plan β}
    {own : α → Multiset (Owner V)} {view : α → β} {extra : Multiset (Owner V)}
    (hact : Follows l may (act s) plan own view (extra + os) s w)
    (hlast : ∀ h os' w', Stage l h (extra + os') w' → Stage l (last h) os' w') :
    Follows l may (act.andFinally (·.mapHeap last) s) plan own view os s w := by
  refine Ends.andFinally hact ?_ ?_
  · rintro a s' ⟨w', held, hplan⟩
    exact ⟨w', (held.reown (add_left_comm _ _ _)).giveBack hlast, hplan⟩
  · rintro f s' ⟨w', held, hfails⟩
    exact ⟨w', held.giveBack hlast, hfails⟩

section Values

variable {E : Type} [Expression E V] [Meaning E] [Faithful E V]

theorem mirrors_value (held : Held l s os w) (e : E) :
    Mirrors l s.faces may (Expression.eval s.toRegisters e s.heap) (Plan.value e)
      (fun v => {.value .caller v}) face (s.owners + os) w :=
  Faithful.mirrors_eval s.toRegisters e held.stage (Held.owners_le s os)

/-- A value is there for the time of a body. -/
theorem withValue {body : V → Act V α} {F : Datum → Plan β} {own : α → Multiset (Owner V)}
    {view : α → β} (held : Held l s os w) (e : E)
    (hbody : ∀ v h w', Held l { s with heap := h } ({.value .caller v} + os) w' →
      Follows l may (body v { s with heap := h }) (F (face v)) own view
        ({.value .caller v} + os) { s with heap := h } w') :
    Follows l may (Act.withValue e body s) (Plan.value e >>= F) own view os s w := by
  refine run_bind held (mirrors_value held e) fun v h w' held' => ?_
  exact (hbody v h w' held').andFinally fun _ _ _ => Stage.drop

omit [Meaning E] [Faithful E V] [Expression E V] in
theorem mapM_map (f : E → Except Failure Datum) (e : E) (es : List E) (got : List Datum) :
    ((e :: es).mapM f).map (got ++ ·) =
      f e >>= fun d => (es.mapM f).map (got ++ [d] ++ ·) := by
  rw [List.mapM_cons]
  rcases f e with x | d
  · rfl
  · rcases hes : es.mapM f with x | ds
    · rfl
    · simp [Except.map, bind, Except.bind, pure, Except.pure]

/-- The values of expressions, after others. -/
theorem mirrors_evalAll (may : Prop) (r : Registers V) (es : List E) (got : List V) {h : Heap V}
    {os : Multiset (Owner V)} {w : Written V} (hr : r.owners ≤ os)
    (st : Stage l h (Owner.ofValues .caller got + os) w) :
    Mirrors l r.faces may (Act.evalAll r got es h)
      (Plan.find fun p => (es.mapM (meaning p.toRegisters)).map (got.reverse.map face ++ ·))
      (Owner.ofValues .caller) (List.map face) os w := by
  induction es generalizing got h w with
  | nil =>
    refine Mirrors.done (a := got.reverse) (st.reown ?_) rfl (Plan.find_of_ok ?_)
    · rw [Owner.ofValues_reverse]
    · simp [Except.map, pure, Except.pure]
  | cons e es ih =>
    rw [Act.evalAll]
    simp only [mapM_map]
    have hr' := hr.trans (Multiset.le_add_left os (Owner.ofValues .caller got))
    refine ((Faithful.mirrors_eval r e st hr').orElseUndo fun h' w' st' => ?_).bind_find
      fun v h' w' st' => ?_
    · rw [← Owner.ofValues_reverse] at st'
      exact st'.dropAll
    · have st'' : Stage l h' (Owner.ofValues .caller (v :: got) + os) w' := st'
      have hrest := ih (v :: got) st''
      simpa using hrest

/-- Values are there for the time of a body. -/
theorem withValues {body : List V → Act V α} {F : List Datum → Plan β}
    {own : α → Multiset (Owner V)} {view : α → β} (held : Held l s os w) (es : List E)
    (hbody : ∀ vs h w', Held l { s with heap := h } (Owner.ofValues .caller vs + os) w' →
      Follows l may (body vs { s with heap := h }) (F (vs.map face)) own view
        (Owner.ofValues .caller vs + os) { s with heap := h } w') :
    Follows l may (Act.withValues es body s) (Plan.values es >>= F) own view os s w := by
  have hvalues := mirrors_evalAll may s.toRegisters es [] (Held.owners_le s os)
    (held.stage.reown (zero_add _).symm)
  simp only [List.reverse_nil, List.map_nil, Term.map_nil_append] at hvalues
  refine run_bind held hvalues fun vs h w' held' => ?_
  exact (hbody vs h w' held').andFinally fun _ _ _ => Stage.dropAll

end Values

end Follows
end CountedCells

import CountedCells.Proofs.Registers

/-!
# Terms: evaluation takes what it means

Evaluating an expression gives a value with its references taken, and the value shows what the
expression means on a plain store (`Faithful`). For terms this is an induction over the term: the
parts that are there already are owned by the evaluation, and when it fails in the middle they are
dropped.

A compound value is made by sharing out a fresh payload, which takes over its parts. In a
dictionary the value of a key has to show the key (`DictParts.Keyed`); a key that is inserted again
keeps its first form, so the two go together for good.
-/

namespace CountedCells

open Attempt

/-- Expressions that evaluate to what they mean. -/
class Faithful (E : Type) (V : outParam Type) [Host V] [Faced V] [Expression E V] [Meaning E] :
    Prop where
  /-- cells that were never written show the default value -/
  blank_eq : blank E = face (default : V)
  /-- the value of an expression shows what it means -/
  mirrors_eval : ∀ {l : Ledger V} {h : Heap V} {os : Multiset (Owner V)} {w : Written V}
    {may : Prop} (r : Registers V) (e : E), Stage l h os w → r.owners ≤ os →
    Mirrors l r.faces may (Expression.eval r e h) (Plan.value e) (fun v => {.value .caller v})
      face os w

namespace Plan

variable {α β : Type}

/-- Looking up one thing after the other. -/
theorem find_bind_find (f : Plain → Except Failure α) (g : α → Plain → Except Failure β) :
    (find f >>= fun a => find (g a)) = find fun p => f p >>= fun a => g a p := by
  funext p
  rcases hf : f p with e | a
  · rw [bind_of_error (find_of_error hf), find, hf]
    rfl
  · rw [bind_of_ok (find_of_ok hf), find, find, hf]
    rfl

end Plan

/-- An evaluation of one thing after the other. -/
theorem Mirrors.bind_find {V ε α β α' β' : Type} [Host V] [Faced V] [Reason ε] {l : Ledger V}
    {r : Registers Datum} {may : Prop} {h : Heap V} {os : Multiset (Owner V)} {w : Written V}
    {act : Attempt ε (Heap V) α} {f : α → Attempt ε (Heap V) α'} {own : α → Multiset (Owner V)}
    {view : α → β} {own' : α' → Multiset (Owner V)} {view' : α' → β'}
    {meant : Plain → Except Failure β} {rest : β → Plain → Except Failure β'}
    (hact : Mirrors l r may (act h) (Plan.find meant) own view os w)
    (hf : ∀ a h' w', Stage l h' (own a + os) w' →
      Mirrors l r may (f a h') (Plan.find (rest (view a))) own' view' os w') :
    Mirrors l r may ((act >>= f) h) (Plan.find fun p => meant p >>= fun b => rest b p)
      own' view' os w := by
  rw [← Plan.find_bind_find]
  exact hact.bind hf

/-- An evaluation that makes something of what it found; it may be known what there can be to find
(`R`). -/
theorem Mirrors.bind_make {V ε α β α' β' : Type} [Host V] [Faced V] [Reason ε] {l : Ledger V}
    {r : Registers Datum} {may : Prop} {h : Heap V} {os : Multiset (Owner V)} {w : Written V}
    {act : Attempt ε (Heap V) α} {f : α → Attempt ε (Heap V) α'} {own : α → Multiset (Owner V)}
    {view : α → β} {own' : α' → Multiset (Owner V)} {view' : α' → β'}
    {meant : Plain → Except Failure β} {R : α → Prop} (make : β → β')
    (hact : Mirrors l r may (act h) (Plan.find meant) own view os w)
    (hR : Ends (act h) (fun a _ => R a) fun _ _ => True)
    (hf : ∀ a h' w', R a → Stage l h' (own a + os) w' →
      Mirrors l r may (f a h') (Pure.pure (make (view a))) own' view' os w') :
    Mirrors l r may ((act >>= f) h) (Plan.find fun p => meant p >>= fun b => .ok (make b))
      own' view' os w := by
  rw [← Plan.find_bind_find meant fun b _ => .ok (make b)]
  exact hact.bind_of hR hf

/-- An evaluation that first looks something up in the registers. -/
theorem Mirrors.ofExcept_bind {V α β α' β' : Type} [Host V] [Faced V] {l : Ledger V}
    {r : Registers Datum} {may : Prop} {h : Heap V} {os : Multiset (Owner V)} {w : Written V}
    {x : Except Failure α} {f : α → Evaluation V α'} {view : α → β}
    {own' : α' → Multiset (Owner V)} {view' : α' → β'} {meant : Plain → Except Failure β}
    {rest : β → Plain → Except Failure β'} (st : Stage l h os w)
    (hmeant : meant ⟨r, w.cells⟩ = x.map view)
    (hf : ∀ a, x = .ok a → Mirrors l r may (f a h) (Plan.find (rest (view a))) own' view' os w) :
    Mirrors l r may (((ofExcept x : Evaluation V α) >>= f) h)
      (Plan.find fun p => meant p >>= fun b => rest b p) own' view' os w := by
  rw [← Plan.find_bind_find]
  cases x with
  | error e => exact Mirrors.stopped st rfl (Plan.bind_of_error (Plan.find_of_error hmeant))
  | ok a =>
    have hfound : Plan.find meant ⟨r, w.cells⟩ = .ok (view a, ⟨r, w.cells⟩) :=
      Plan.find_of_ok hmeant
    exact (hf a rfl).of_plan (Plan.bind_of_ok hfound)

/-! ## Compound values -/

section

variable {l : Ledger Value} {r : Registers Datum} {may : Prop} {h : Heap Value}
  {os : Multiset (Owner Value)} {w : Written Value}

/-- Parts are taken over by a fresh payload. -/
theorem mirrors_share {d : Datum} (hd : d.kind.isShared = true) {parts : List Value}
    (st : Stage l h (Owner.ofValues .caller parts + os) w)
    (hparts : d.children = parts.map face) :
    Mirrors l r may ((change (Value.share d hd parts) : Evaluation Value Value) h)
      (Pure.pure d) (fun v => {.value .caller v}) face os w := by
  have href : Host.ref (Value.share d hd parts h).1 = some (.payload h.payloads.length) := by
    cases d <;> first | rfl | cases hd
  exact ends_change ⟨w, List.prefix_rfl, st.step (.share href hparts), rfl⟩

/-- A value that carries its content itself owns nothing. -/
theorem mirrors_inline {d : Datum} {hd : d.kind.isShared = false} {plan : Plan Datum}
    (st : Stage l h os w) (hplan : plan ⟨r, w.cells⟩ = .ok (d, ⟨r, w.cells⟩))
    (href : Host.ref (Value.inline d hd) = none) :
    Mirrors l r may ((Pure.pure (Value.inline d hd) : Evaluation Value Value) h) plan
      (fun v => {.value .caller v}) face os w := by
  refine Mirrors.done (a := Value.inline d hd) ((st.reown ?_).step (.adopt ?_)) rfl hplan
  · rw [Owner.ofRef, href]
    exact (zero_add os).symm
  · intro p hp
    rw [href] at hp
    cases hp

end

/-! ## Dictionaries -/

theorem Key.beq_symm (k k' : Key) : (k == k') = (k' == k) := by
  show k.same k' = k'.same k
  cases k <;> cases k' <;> first | rfl | exact BEq.comm

namespace DictParts

/-- The values of keys show the keys. -/
def Keyed (parts : DictParts) : Prop := ∀ e ∈ parts, e.2.1.datum = e.1.datum

/-- The entries with data for values. -/
def faces (parts : DictParts) : List (Key × Datum) :=
  Entries.mapValues (fun (_, v) => v.datum) parts

theorem children_faces {parts : DictParts} (hparts : parts.Keyed) :
    (Datum.dict parts.faces).children = parts.values.map face := by
  induction parts with
  | nil => rfl
  | cons e rest ih =>
    obtain ⟨k, kv, v⟩ := e
    have hk : kv.datum = k.datum := hparts _ List.mem_cons_self
    have hrest := ih fun e he => hparts e (List.mem_cons_of_mem _ he)
    simp only [Datum.children, faces, values, Entries.mapValues_cons, List.flatMap_cons,
      List.map_append, ← hk] at hrest ⊢
    rw [hrest]
    rfl

theorem keyed_put_of_lookup {k : Key} {first old v : Value} {parts : DictParts}
    (h : List.lookup k parts = some (first, old)) (hparts : parts.Keyed) :
    Keyed (Entries.put k (first, v) parts) := by
  induction parts with
  | nil => cases h
  | cons e rest ih =>
    obtain ⟨k', a'⟩ := e
    have hrest : Keyed rest := fun e he => hparts e (List.mem_cons_of_mem _ he)
    have hhead : a'.1.datum = k'.datum := hparts _ List.mem_cons_self
    rw [List.lookup_cons, Key.beq_symm] at h
    rw [Entries.put]
    split at h
    · rename_i hk
      cases h
      rw [if_pos hk]
      exact List.forall_mem_cons.mpr ⟨hhead, hrest⟩
    · rename_i hk
      rw [if_neg (Bool.eq_false_iff.mp hk)]
      exact List.forall_mem_cons.mpr ⟨hhead, ih h hrest⟩

theorem keyed_put {k : Key} {kv v : Value} {parts : DictParts}
    (h : List.lookup k parts = none) (hk : kv.datum = k.datum) (hparts : parts.Keyed) :
    Keyed (Entries.put k (kv, v) parts) := by
  induction parts with
  | nil => exact List.forall_mem_cons.mpr ⟨hk, hparts⟩
  | cons e rest ih =>
    obtain ⟨k', a'⟩ := e
    have hrest : Keyed rest := fun e he => hparts e (List.mem_cons_of_mem _ he)
    rw [List.lookup_cons, Key.beq_symm] at h
    rw [Entries.put]
    split at h
    · cases h
    · rename_i hkk
      rw [if_neg (Bool.eq_false_iff.mp hkk)]
      exact List.forall_mem_cons.mpr ⟨hparts _ List.mem_cons_self, ih h hrest⟩

/-- A key that is inserted again keeps its first form. -/
theorem keyed_insert {k : Key} {kv : Value} (v : Value) {parts : DictParts}
    (hk : kv.datum = k.datum) (hparts : parts.Keyed) : (insert k kv v parts).2.Keyed := by
  rw [insert]
  rcases h : List.lookup k parts with - | ⟨first, old⟩
  · exact keyed_put h hk hparts
  · exact keyed_put_of_lookup h hparts

theorem faces_insert (k : Key) (kv v : Value) (parts : DictParts) :
    (insert k kv v parts).2.faces = Entries.put k v.datum parts.faces := by
  rw [insert]
  rcases List.lookup k parts with - | ⟨first, old⟩ <;> exact Entries.mapValues_put ..

theorem ofValues_values (parts : DictParts) :
    Owner.ofValues .caller parts.values =
      Entries.gather (fun a => Owner.ofValues .caller [a.1, a.2]) parts := by
  induction parts with
  | nil => rfl
  | cons e rest ih =>
    obtain ⟨k, kv, v⟩ := e
    rw [Entries.gather_cons, ← ih]
    exact Owner.ofValues_append .caller [kv, v] (values rest)

/-- What is inserted goes into the parts or is displaced. -/
theorem ofValues_insert (k : Key) (kv v : Value) (parts : DictParts) :
    Owner.ofValues .caller (insert k kv v parts).1 +
        Owner.ofValues .caller (insert k kv v parts).2.values =
      {.value .caller v} + ({.value .caller kv} + Owner.ofValues .caller parts.values) := by
  have hparts := Entries.gather_eq (fun a : Value × Value => Owner.ofValues .caller [a.1, a.2])
    Key.beq_symm k parts
  rw [← ofValues_values] at hparts
  rw [insert]
  -- the first form of a key stays, so the new form is displaced along with the old value
  rcases h : List.lookup k parts with - | ⟨first, old⟩
  · show Owner.ofValues .caller [] +
      Owner.ofValues .caller (values (Entries.put k (kv, v) parts)) = _
    rw [hparts, h, ofValues_values, Entries.gather_put]
    simp only [Option.elim_none, Owner.ofValues_cons, Owner.ofValues_nil]
    abel
  · show Owner.ofValues .caller [kv, old] +
      Owner.ofValues .caller (values (Entries.put k (first, v) parts)) = _
    rw [hparts, h, ofValues_values, Entries.gather_put]
    simp only [Option.elim_some, Owner.ofValues_cons, Owner.ofValues_nil]
    abel

end DictParts

/-! ## Evaluation -/

section

variable {l : Ledger Value} {may : Prop} {h : Heap Value} {os : Multiset (Owner Value)}
  {w : Written Value} {r : Registers Value}

namespace Term

/-- Evaluating the entries of a dictionary gives parts where keys are shown by their values. -/
theorem ends_evalEntries_keyed (es : List (Term × Term)) {got : DictParts} (hgot : got.Keyed)
    (h : Heap Value) :
    Ends (evalEntries r got es h) (fun parts _ => parts.Keyed) (fun _ _ => True) := by
  induction es generalizing got h with
  | nil =>
    rw [evalEntries]
    exact ends_pure hgot
  | cons e es ih =>
    obtain ⟨kt, t⟩ := e
    rw [evalEntries]
    refine (ends_true _).bind fun kv h' _ => (ends_true _).bind fun v h'' _ => ?_
    rcases hk : kv.datum.key? with - | k
    · exact (ends_true _).bind fun _ _ _ => ends_throw trivial
    · refine (ends_true _).bind fun _ h₁ _ => ih ?_ h₁
      exact DictParts.keyed_insert v (Datum.key?_eq_some_iff.mp hk) hgot

/-- The owners of a record that is being built. -/
def ofFields (got : Record Value) : Multiset (Owner Value) :=
  Owner.ofValues .caller (got.fields.map Prod.snd)

/-- A field that is added goes into the record, or takes the place of another. -/
theorem ofFields_withField (got : Record Value) (name : String) (v : Value) :
    Owner.ofValues .caller (got.get? name).toList + ofFields (got.withField name v) =
      {.value .caller v} + ofFields got := by
  have hfields (fs : List (String × Value)) :
      Owner.ofValues .caller (fs.map Prod.snd) = Entries.gather Registers.ofVariable fs := by
    induction fs with
    | nil => rfl
    | cons e rest ih => rw [List.map_cons, Owner.ofValues_cons, Entries.gather_cons, ih]; rfl
  have hgot := Entries.gather_eq Registers.ofVariable (fun _ _ => BEq.comm) name got.fields
  simp only [ofFields, Record.get?, Record.withField]
  rw [hfields, hfields, Entries.gather_put, hgot]
  rcases List.lookup name got.fields with - | old
  · simp only [Option.toList_none, Owner.ofValues_nil, Option.elim_none, Registers.ofVariable]
    abel
  · simp only [Option.toList_some, Owner.ofValues_cons, Owner.ofValues_nil, Option.elim_some,
      Registers.ofVariable]
    abel

/-- A record keeps its name while fields are added. -/
theorem ends_evalFields_name (fs : List (String × Term)) (got : Record Value) (h : Heap Value) :
    Ends (evalFields r got fs h) (fun rec _ => rec.name = got.name) (fun _ _ => True) := by
  induction fs generalizing got h with
  | nil =>
    rw [evalFields]
    exact ends_pure rfl
  | cons f fs ih =>
    obtain ⟨name, t⟩ := f
    rw [evalFields]
    exact (ends_true _).bind fun v h' _ => (ends_true _).bind fun _ h₁ _ =>
      ih (got.withField name v) h₁

theorem children_record (got : Record Value) :
    (Datum.record got.name (Entries.mapValues Value.datum got.fields)).children =
      (got.fields.map Prod.snd).map face := by
  show (Entries.mapValues Value.datum got.fields).map Prod.snd = _
  rw [Entries.mapValues, List.map_map, List.map_map]
  rfl

theorem meaningItems_map (r : Registers Datum) (t : Term) (ts : List Term) (got : List Datum) :
    (meaningItems r (t :: ts)).map (got ++ ·) =
      t.meaning r >>= fun d => (meaningItems r ts).map (got ++ [d] ++ ·) := by
  rw [meaningItems]
  rcases t.meaning r with e | d
  · rfl
  · rcases hts : meaningItems r ts with e | ds
    · rfl
    · simp [Except.map, bind, Except.bind]

theorem map_nil_append (x : Except Failure (List Datum)) : x.map ([] ++ ·) = x := by
  cases x <;> rfl

/-- A pointer as a value takes over the reference of the pointer. -/
theorem adopt_pointer {h : Heap Value} {os : Multiset (Owner Value)} {w : Written Value}
    {q : Pointer} (st : Stage l h (Owner.ofPointer q + os) w) :
    Stage l h ({.value .caller (.pointer q)} + os) w := by
  have howner : (Owner.ofRef (.pointer q : Value) : Multiset (Owner Value)) =
      Owner.ofPointer q := by
    cases q <;> rfl
  refine (st.reown ?_).step (.adopt ?_)
  · rw [howner]
  · intro p hp
    cases q <;> cases hp

mutual

/-- The value of a term shows what the term means. -/
theorem mirrors_eval (t : Term) {h : Heap Value} {os : Multiset (Owner Value)} {w : Written Value}
    (st : Stage l h os w) (hr : r.owners ≤ os) :
    Mirrors l r.faces may (t.eval r h) (Plan.find fun p => t.meaning p.toRegisters)
      (fun v => {.value .caller v}) face os w := by
  have st₀ : Stage l h (Owner.ofValues .caller [] + os) w := st.reown (zero_add os).symm
  match t with
  | unit | bool _ | char _ | int _ | float _ | null =>
    rw [eval]
    exact mirrors_inline st (by simp only [meaning]; rfl) rfl
  | text _ | bytes _ | absent =>
    rw [eval]
    exact Mirrors.of_plan (mirrors_share rfl st₀ rfl) (by simp only [meaning]; rfl)
  | list ts =>
    have hitems := mirrors_evalItems ts st₀ hr
    simp only [List.reverse_nil, List.map_nil, map_nil_append] at hitems
    rw [eval]
    simp only [meaning]
    refine hitems.bind_make Datum.list (ends_true _) fun vs h' w' _ st' => ?_
    exact mirrors_share rfl st' rfl
  | tuple ts =>
    have hitems := mirrors_evalItems ts st₀ hr
    simp only [List.reverse_nil, List.map_nil, map_nil_append] at hitems
    rw [eval]
    simp only [meaning]
    refine hitems.bind_make Datum.tuple (ends_true _) fun vs h' w' _ st' => ?_
    exact mirrors_share rfl st' rfl
  | record name fs =>
    have hfields := mirrors_evalFields fs (.empty name) st₀ hr
    rw [eval]
    simp only [meaning]
    refine hfields.bind_make (Datum.record name) (ends_evalFields_name fs (.empty name) h)
      fun got h' w' hname st' => ?_
    have hname : got.name = name := hname
    subst hname
    exact mirrors_share rfl st' (children_record got)
  | dict es =>
    have hentries := mirrors_evalEntries es [] st₀ hr
    rw [eval]
    simp only [meaning]
    refine hentries.bind_make Datum.dict (ends_evalEntries_keyed es (List.forall_mem_nil _) h)
      fun parts h' w' hparts st' => ?_
    exact mirrors_share rfl st' (DictParts.children_faces hparts)
  | present t =>
    rw [eval]
    simp only [meaning]
    refine (mirrors_eval t st hr).bind_make Datum.present (ends_true _) fun v h' w' _ st' => ?_
    have st'' : Stage l h' (Owner.ofValues .caller [v] + os) w' := st'
    exact mirrors_share rfl st'' rfl
  | handle name =>
    rw [eval]
    simp only [meaning]
    have hnamed : r.faces.handleNamed name = (r.handleNamed name).map id := by
      rw [Registers.handleNamed_faces]
      cases r.handleNamed name <;> rfl
    refine Mirrors.ofExcept_bind st hnamed fun p hp => ?_
    have hkeeps := Registers.keeps_handle hr (Registers.lookup_of_handleNamed hp)
    refine Mirrors.of_plan ((mirrors_copy st hkeeps).ofAction.bind
      (F := fun q => Pure.pure (.pointer q)) fun q h' w' st' => ?_) rfl
    exact Mirrors.done (adopt_pointer st') rfl rfl
  | var name =>
    rw [eval]
    simp only [meaning]
    have hvar : Mirrors l r.faces may
        ((do
          let v ← ofExcept (r.variableNamed name)
          Evaluation.ofAction (Heap.copy v)
          pure v : Evaluation Value Value) h)
        (Plan.find fun p => p.variableNamed name >>= fun d => .ok d)
        (fun v => {.value .caller v}) face os w := by
      refine Mirrors.ofExcept_bind st (Registers.variableNamed_faces r name) fun v hv => ?_
      have hmem := Registers.mem_variable hr (Registers.lookup_of_variableNamed hv)
      refine Mirrors.of_plan ((mirrors_copyValue st (.inl ⟨.caller, hmem⟩)).ofAction.bind
        (F := fun _ => Pure.pure (face v)) fun _ h' w' st' => ?_) rfl
      exact Mirrors.done (a := v) st' rfl rfl
    refine hvar.of_plan ?_
    simp only [Plan.find]
    cases r.faces.variableNamed name <;> rfl

/-- The values of terms, after others. -/
theorem mirrors_evalItems (ts : List Term) {got : List Value} {h : Heap Value}
    {os : Multiset (Owner Value)} {w : Written Value}
    (st : Stage l h (Owner.ofValues .caller got + os) w) (hr : r.owners ≤ os) :
    Mirrors l r.faces may (evalItems r got ts h)
      (Plan.find fun p => (meaningItems p.toRegisters ts).map (got.reverse.map face ++ ·))
      (Owner.ofValues .caller) (List.map face) os w := by
  match ts with
  | [] =>
    rw [evalItems]
    refine Mirrors.done (a := got.reverse) (st.reown ?_) rfl (Plan.find_of_ok ?_)
    · rw [Owner.ofValues_reverse]
    · simp [meaningItems, Except.map]
  | t :: ts =>
    rw [evalItems]
    simp only [meaningItems_map]
    have heval := mirrors_eval t st (hr.trans (Multiset.le_add_left _ _))
    refine (heval.orElseUndo fun h' w' st' => ?_).bind_find fun v h' w' st' => ?_
    · rw [← Owner.ofValues_reverse] at st'
      exact st'.dropAll
    · have st'' : Stage l h' (Owner.ofValues .caller (v :: got) + os) w' := st'
      have hitems := mirrors_evalItems ts st'' hr
      simpa using hitems

/-- A record with fields added. -/
theorem mirrors_evalFields (fs : List (String × Term)) (got : Record Value) {h : Heap Value}
    {os : Multiset (Owner Value)} {w : Written Value}
    (st : Stage l h (ofFields got + os) w) (hr : r.owners ≤ os) :
    Mirrors l r.faces may (evalFields r got fs h)
      (Plan.find fun p => meaningFields p.toRegisters (Entries.mapValues face got.fields) fs)
      ofFields (fun rec => Entries.mapValues face rec.fields) os w := by
  match fs with
  | [] =>
    rw [evalFields]
    refine Mirrors.done (a := got) st rfl (Plan.find_of_ok ?_)
    rw [meaningFields]
  | (name, t) :: fs =>
    rw [evalFields]
    simp only [meaningFields]
    have heval := mirrors_eval t st (hr.trans (Multiset.le_add_left _ _))
    refine (heval.orElseUndo fun h' w' st' => st'.dropAll).bind_find fun v h' w' st' => ?_
    -- the field that is displaced goes first
    have st₁ : Stage l (h'.dropAll (got.get? name).toList)
        (ofFields (got.withField name v) + os) w' :=
      (st'.reown (by rw [← ofFields_withField, add_assoc])).dropAll
    have hfields := mirrors_evalFields fs (got.withField name v) st₁ hr
    rw [Record.withField, Entries.mapValues_put] at hfields
    exact Mirrors.update_bind hfields

/-- Parts of a dictionary with entries inserted. -/
theorem mirrors_evalEntries (es : List (Term × Term)) (got : DictParts) {h : Heap Value}
    {os : Multiset (Owner Value)} {w : Written Value}
    (st : Stage l h (Owner.ofValues .caller got.values + os) w) (hr : r.owners ≤ os) :
    Mirrors l r.faces may (evalEntries r got es h)
      (Plan.find fun p => meaningEntries p.toRegisters got.faces es)
      (fun parts => Owner.ofValues .caller parts.values) DictParts.faces os w := by
  match es with
  | [] =>
    rw [evalEntries]
    refine Mirrors.done (a := got) st rfl (Plan.find_of_ok ?_)
    rw [meaningEntries]
  | (kt, t) :: es =>
    rw [evalEntries]
    simp only [meaningEntries]
    have hkey := mirrors_eval kt st (hr.trans (Multiset.le_add_left _ _))
    refine (hkey.orElseUndo fun h' w' st' => st'.dropAll).bind_find fun kv h₁ w₁ st₁ => ?_
    have hvalue := mirrors_eval t st₁ (hr.trans (Multiset.le_add_left _ _))
    refine (hvalue.orElseUndo fun h' w' st' => ?_).bind_find fun v h₂ w₂ st₂ => ?_
    · exact (st'.reown (add_assoc _ _ _)).drop.dropAll
    · have hface : face kv = kv.datum := rfl
      rw [hface]
      rcases hk : kv.datum.key? with - | k
      · -- what cannot be a key is dropped, and with it everything evaluated so far
        have st₃ := ((st₂.reown (add_assoc _ _ _)).drop.reown (add_assoc _ _ _)).drop.dropAll
        exact Mirrors.update_bind (Mirrors.stopped st₃ rfl rfl)
      · have st₃ : Stage l (h₂.dropAll (DictParts.insert k kv v got).1)
            (Owner.ofValues .caller (DictParts.insert k kv v got).2.values + os) w₂ :=
          (st₂.reown (by rw [← DictParts.ofValues_insert, add_assoc])).dropAll
        have hentries := mirrors_evalEntries es (DictParts.insert k kv v got).2 st₃ hr
        rw [DictParts.faces_insert] at hentries
        exact Mirrors.update_bind hentries

end

end Term

instance : Faithful Term Value where
  blank_eq := rfl
  mirrors_eval _ t st hr := t.mirrors_eval st hr

end

/-! ## Structures of pointers -/

section

variable {l : Ledger Value} {may : Prop} {h : Heap Value} {os : Multiset (Owner Value)}
  {w : Written Value} {r : Registers Datum}

/-- Whoever has a pointer as a value keeps it. -/
theorem keeps_of_datum {v : Value} {p : Pointer} (hv : v.datum = .pointer p) (holder : Holder) :
    Owner.Keeps ({.value holder v} + os) p := by
  rintro b n rfl
  rw [Owner.refs_add, Owner.refs_value, Faced.ref_eq_block.mpr hv]
  exact Multiset.mem_add.mpr (.inl (Multiset.mem_singleton_self _))

theorem follow_pointer (limit hops : Nat) {v : Value} {p : Pointer} (hv : v.datum = .pointer p) :
    v.follow (limit + 1) hops = (do
      let u ← (p.get : Action Value Value).orElseUndo (·.drop v)
      .update (·.drop v)
      u.follow limit (hops + 1)) := by
  rw [Value.follow]
  split
  · rename_i q hq
    rw [hv] at hq
    cases hq
    rfl
  · rename_i hne
    exact absurd hv (hne p)

theorem follow_other (limit hops : Nat) {v : Value} (hv : ∀ p, v.datum ≠ .pointer p) :
    v.follow (limit + 1) hops = pure (hops, v) := by
  rw [Value.follow]
  split
  · rename_i q hq
    exact absurd hq (hv q)
  · rfl

theorem Cells.follow_other (c : Cells) (limit hops : Nat) {d : Datum} (hd : ∀ p, d ≠ .pointer p) :
    c.follow (limit + 1) hops d = .ok (hops, d) := by
  rw [Cells.follow]
  exact hd

/-- Following pointers from a value. -/
theorem mirrors_follow (limit hops : Nat) (v : Value) (st : Stage l h ({.value .caller v} + os) w) :
    Mirrors l r may (v.follow limit hops h)
      (Plan.find fun p =>
        (p.cells.follow limit hops v.datum).mapError fun e => .fault (.error e))
      (fun x => {.value .caller x.2}) (fun x => (x.1, face x.2)) os w := by
  induction limit generalizing hops v h w with
  | zero => exact Mirrors.done (a := (hops, v)) st rfl rfl
  | succ limit ih =>
    by_cases hv : ∃ p, v.datum = .pointer p
    · obtain ⟨p, hp⟩ := hv
      rw [follow_pointer limit hops hp, hp]
      have hkeeps : Owner.Keeps ({.value .caller v} + os) p := keeps_of_datum hp .caller
      refine Mirrors.of_plan (((mirrors_get st hkeeps).orElseUndo fun h' w' st' => st'.drop).bind
        (F := fun d => Plan.find fun p =>
          (p.cells.follow limit (hops + 1) d).mapError fun e => .fault (.error e))
        fun u h' w' st' => ?_) ?_
      · -- the next value is owned before the pointer to it is dropped
        refine Mirrors.update_bind (ih (hops + 1) u (Stage.drop (st'.reown ?_)))
        rw [← add_assoc, add_comm ({.value .caller v} : Multiset (Owner Value))]
      · simp only [Plan.find, Cells.follow, Plan.get, Plan.checked]
        rcases p.scalar? with e | b <;> rfl
    · have hne : ∀ p, v.datum ≠ .pointer p := fun p hp => hv ⟨p, hp⟩
      rw [follow_other limit hops hne]
      refine Mirrors.done (a := (hops, v)) st rfl (Plan.find_of_ok ?_)
      rw [Cells.follow_other _ limit hops hne]
      rfl

/-- Putting cells in front of a pointer. -/
theorem mirrors_chainOn (n : Nat) (p : Pointer) (hmay : may)
    (st : Stage l h (Owner.ofPointer p + os) w) :
    Mirrors l r may (Value.chainOn n p h) (Plan.chainOn n p) Owner.ofPointer id os w := by
  induction n generalizing p h w with
  | zero => exact Mirrors.done (a := p) st rfl rfl
  | succ n ih =>
    have hsource : Sourced (Owner.ofPointer p + os) (.pointer p : Value) := by
      refine .inr fun ref href => ?_
      cases p with
      | null => cases href
      | cells b m =>
        cases href
        refine ⟨⟨b, m, rfl⟩, ?_⟩
        exact Owner.keeps_of_mem (Multiset.le_add_right _ _) b m rfl
    refine ((mirrors_allocate st hsource hmay).orElseUndo fun h' w' st' =>
      st'.dropPointer).bind fun q h' w' st' => ?_
    -- the new cell keeps what `p` points to, so `p` itself can go
    refine Mirrors.update_bind (ih q (Stage.dropPointer (st'.reown ?_)))
    rw [← add_assoc, add_comm (Owner.ofPointer p)]

theorem mirrors_chain (n : Nat) {v : Value} (hv : Sourced os v) (hmay : may) (st : Stage l h os w) :
    Mirrors l r may (v.chain n h) (do Plan.chainOn (n - 1) (← Plan.fresh [face v]))
      Owner.ofPointer id os w :=
  (mirrors_allocate st hv hmay).bind fun q _ _ st' => mirrors_chainOn (n - 1) q hmay st'

end

end CountedCells

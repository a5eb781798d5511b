import CountedCells.Proofs.Congruence

/-!
# Related sessions: commands respect congruences

Sessions are **related** if they have the same owners and their heaps are related by a congruence.
All commands respect this: they give the same answer, and related sessions stay related. Three
commands ask for a little more (`Command.Suits`): the one that rebuilds a pointer, the one that
installs settings, and the question for the flag that is lost when a pointer is rebuilt.

A property of one heap is a congruence of a special kind, which relates each heap that has the
property to itself. So a property that is kept by the few ways in which a heap changes (`Closed`) is
kept by everything that a session can do.
-/

namespace CountedCells

open Attempt
open scoped Relator

variable {V : Type}

/-! ## Expressions -/

theorem Attempt.Respects.ofAction {R : Heap V → Heap V → Prop} {α : Type} {act : Action V α}
    (hact : Respects R act) : Respects R (Evaluation.ofAction act) :=
  fun _ _ hr => ⟨congrArg (Except.mapError Failure.fault) (hact hr).1, (hact hr).2⟩

/-- Expressions that are evaluated by what is counted and nothing else. -/
class Discreet (E : Type) (V : outParam Type) [Host V] [Expression E V] : Prop where
  /-- evaluating one respects every congruence -/
  respects_eval : ∀ {R : Heap V → Heap V → Prop}, Congruence R → ∀ (r : Registers V) (e : E),
    Respects R (Expression.eval r e : Evaluation V V)

instance : Discreet Tracked.Term Tracked where
  respects_eval _ r e := by
    cases e with
    | literal n => exact .pure _
    | var name => exact .ofExcept _

namespace Term

variable {R : Heap Value → Heap Value → Prop} (hR : Congruence R)

include hR

theorem respects_share {d : Datum} (hd : d.kind.isShared = true) (parts : List Value) :
    Respects R (Attempt.change (Value.share d hd parts) : Evaluation Value Value) := by
  refine .change fun h g hr => ?_
  simp only [Value.share, (hR.alike hr).payloads]
  exact ⟨trivial, hR.payloads _ hr⟩

mutual

theorem respects_eval (r : Registers Value) (t : Term) : Respects R (t.eval r) := by
  match t with
  | unit | bool _ | char _ | int _ | float _ | null =>
    rw [eval]
    exact .pure _
  | text _ | bytes _ | absent =>
    rw [eval]
    exact respects_share hR rfl _
  | list ts =>
    rw [eval]
    exact .bind (respects_evalItems r [] ts) fun vs => respects_share hR rfl vs
  | tuple ts =>
    rw [eval]
    exact .bind (respects_evalItems r [] ts) fun vs => respects_share hR rfl vs
  | record name fs =>
    rw [eval]
    exact .bind (respects_evalFields r _ fs) fun rec => respects_share hR rfl _
  | dict es =>
    rw [eval]
    exact .bind (respects_evalEntries r [] es) fun parts => respects_share hR rfl _
  | present t =>
    rw [eval]
    exact .bind (respects_eval r t) fun v => respects_share hR rfl _
  | handle name =>
    rw [eval]
    refine .bind (.ofExcept _) fun p => ?_
    exact .bind (hR.copyPointer p).ofAction fun q => .pure _
  | var name =>
    rw [eval]
    refine .bind (.ofExcept _) fun v => ?_
    exact .bind (hR.copy v).ofAction fun _ => .pure _

theorem respects_evalItems (r : Registers Value) (got : List Value) (ts : List Term) :
    Respects R (evalItems r got ts) := by
  match ts with
  | [] =>
    rw [evalItems]
    exact .pure _
  | t :: ts =>
    rw [evalItems]
    refine .bind (.orElseUndo (respects_eval r t) (hR.dropAll _)) fun v => ?_
    exact respects_evalItems r (v :: got) ts

theorem respects_evalFields (r : Registers Value) (got : Record Value)
    (fs : List (String × Term)) : Respects R (evalFields r got fs) := by
  match fs with
  | [] =>
    rw [evalFields]
    exact .pure _
  | (name, t) :: fs =>
    rw [evalFields]
    refine .bind (.orElseUndo (respects_eval r t) (hR.dropAll _)) fun v => ?_
    exact .bind (.update (hR.dropAll _)) fun _ => respects_evalFields r _ fs

theorem respects_evalEntries (r : Registers Value) (got : DictParts) (es : List (Term × Term)) :
    Respects R (evalEntries r got es) := by
  match es with
  | [] =>
    rw [evalEntries]
    exact .pure _
  | (kt, t) :: es =>
    rw [evalEntries]
    refine .bind (.orElseUndo (respects_eval r kt) (hR.dropAll _)) fun kv => ?_
    refine .bind (.orElseUndo (respects_eval r t) fun h g hr => ?_) fun v => ?_
    · exact hR.dropAll _ (hR.drop kv hr)
    · cases kv.datum.key? with
      | none =>
        refine .bind (.update fun h g hr => ?_) fun _ => .throw _
        exact hR.dropAll _ (hR.drop kv (hR.drop v hr))
      | some k => exact .bind (.update (hR.dropAll _)) fun _ => respects_evalEntries r _ es

end

end Term

instance : Discreet Term Value where
  respects_eval hR r t := t.respects_eval hR r

/-! ## Structures of pointers -/

namespace Value

variable {R : Heap Value → Heap Value → Prop} (hR : Congruence R)

include hR

theorem respects_follow (limit hops : Nat) (v : Value) : Respects R (v.follow limit hops) := by
  induction limit generalizing hops v with
  | zero => exact .pure _
  | succ limit ih =>
    rw [follow]
    split
    · refine .bind (.orElseUndo (hR.get _) (hR.drop v)) fun w => ?_
      exact .bind (.update (hR.drop v)) fun _ => ih (hops + 1) w
    · exact .pure _

theorem respects_chainOn (n : Nat) (p : Pointer) : Respects R (chainOn n p) := by
  induction n generalizing p with
  | zero => exact .pure _
  | succ n ih =>
    refine .bind (.orElseUndo (hR.allocateCell _) (hR.dropPointer p)) fun q => ?_
    exact .bind (.update (hR.dropPointer p)) fun _ => ih q

theorem respects_chain (n : Nat) (v : Value) : Respects R (v.chain n) :=
  .bind (hR.allocateCell v) fun p => respects_chainOn hR (n - 1) p

end Value

/-! ## Parts of commands -/

/-- The sessions have the same owners, and their heaps are related. -/
def Session.Related (R : Heap V → Heap V → Prop) (s t : Session V) : Prop :=
  s.toRegisters = t.toRegisters ∧ R s.heap t.heap

namespace Session.Related

variable {R : Heap V → Heap V → Prop} {α : Type}

theorem mapHeap {f : Heap V → Heap V} (hf : (R ⇒ R) f f) :
    (Related R ⇒ Related R) (·.mapHeap f) (·.mapHeap f) :=
  fun _ _ h => ⟨h.1, hf h.2⟩

theorem run {act : Evaluation V α} (hact : Respects R act) : Respects (Related R) (Act.run act) :=
  fun _ _ h => ⟨(hact h.2).1, h.1, (hact h.2).2⟩

theorem perform {act : Action V α} (hact : Respects R act) :
    Respects (Related R) (Act.perform act) :=
  run hact.ofAction

theorem updateHeap {f : Heap V → Heap V} (hf : (R ⇒ R) f f) :
    Respects (Related R) (Act.updateHeap f) :=
  .update (mapHeap hf)

theorem updateRegisters (f : Registers V → Registers V) :
    Respects (Related R) (Act.updateRegisters f) :=
  .update fun _ _ h => ⟨congrArg f h.1, h.2⟩

theorem lookRegisters (f : Registers V → α) :
    Respects (Related R) (Attempt.look (fun s => f s.toRegisters) : Act V α) :=
  .look fun _ _ h => congrArg f h.1

theorem findRegisters (f : Registers V → Except Failure α) :
    Respects (Related R) (Attempt.find (fun s => f s.toRegisters) : Act V α) :=
  .find fun _ _ h => congrArg f h.1

theorem lookHeap {f : Heap V → α} (hf : ∀ h g, R h g → f h = f g) :
    Respects (Related R) (Attempt.look (fun s => f s.heap) : Act V α) :=
  .look fun _ _ h => hf _ _ h.2

theorem handle (name : String) : Respects (Related R) (Act.handle name) :=
  findRegisters (·.handleNamed name)

theorem variableValue (name : String) : Respects (Related R) (Act.variableValue name) :=
  findRegisters (·.variableNamed name)

theorem rawBlock (name : String) : Respects (Related R) (Act.rawBlock name) :=
  findRegisters (·.rawNamed name)

theorem rawWithCell (name : String) (i : Nat) : Respects (Related R) (Act.rawWithCell name i) := by
  refine .bind (rawBlock name) fun u => ?_
  split
  · exact .pure _
  · exact .throw _

theorem takeVariable (name : String) : Respects (Related R) (Act.takeVariable name) := by
  refine .bind (variableValue name) fun v => ?_
  exact .bind (updateRegisters _) fun _ => .pure _

theorem originAddress (o : Origin) (n : Nat) : Respects (Related R) (Act.originAddress o n) := by
  intro s t h
  rw [Origin.originAddress_apply, Origin.originAddress_apply, h.1]
  exact ⟨rfl, h⟩

variable (hR : Congruence R)

include hR

theorem countOf (p : Pointer) : Respects (Related R) (Act.countOf p) :=
  lookHeap fun _ _ hr => (hR.alike hr).refCount p

variable [Host V]

theorem nameHandle (name : String) (p : Pointer) :
    Respects (Related R) (Act.nameHandle name p) := by
  refine .bind (lookRegisters (·.handles.lookup name)) fun old => ?_
  refine .bind (updateRegisters _) fun _ => ?_
  cases old with
  | none => exact .pure _
  | some q => exact updateHeap (hR.dropPointer q)

theorem nameVariable (name : String) (v : V) : Respects (Related R) (Act.nameVariable name v) := by
  refine .bind (lookRegisters (·.values.lookup name)) fun old => ?_
  refine .bind (updateRegisters _) fun _ => ?_
  cases old with
  | none => exact .pure _
  | some w => exact updateHeap (hR.drop w)

theorem nameRaw (name : String) (u : RawBlock) : Respects (Related R) (Act.nameRaw name u) := by
  refine .bind (lookRegisters (·.raws.lookup name)) fun old => ?_
  refine .bind (updateRegisters _) fun _ => ?_
  cases old with
  | none => exact .pure _
  | some w => exact updateHeap (hR.giveBack w)

theorem keepOrDrop (keep : Option String) (v : V) :
    Respects (Related R) (Act.keepOrDrop keep v) := by
  cases keep with
  | none => exact updateHeap (hR.drop v)
  | some name => exact nameVariable hR name v

theorem made (name : String) (p : Pointer) : Respects (Related R) (Act.made name p) :=
  .bind (nameHandle hR name p) fun _ => .bind (countOf hR p) fun _ => .pure _

theorem answerValue (keep : Option String) (v : V) :
    Respects (Related R) (Act.answerValue keep v) :=
  .bind (keepOrDrop hR keep v) fun _ => .pure _

theorem collect (got : List Pointer) (names : List String) :
    Respects (Related R) (Act.collect got names) := by
  induction names generalizing got with
  | nil => exact .pure _
  | cons name names ih =>
    have hcopied : Respects (Related R)
        (do Act.perform (← Act.handle name).copy : Act V Pointer) :=
      .bind (handle name) fun p => perform (hR.copyPointer p)
    refine .bind (.orElseUndo hcopied (mapHeap ?_)) fun p => ?_
    · exact Congruence.foldl (fun q => hR.dropPointer q) got
    · split
      · exact .bind (updateHeap (hR.dropPointer p)) fun _ => .bind (ih got) fun _ => .pure _
      · exact .bind (ih (got ++ [p])) fun _ => .pure _

theorem setThrough (name : String) (p : Pointer) (v : V) :
    Respects (Related R) (Act.setThrough name p v) := by
  refine .bind (run (.change (hR.set p v))) fun x => .bind (updateRegisters _) fun _ => ?_
  rcases x with ⟨q, f | -⟩
  · exact .throw _
  · exact .pure _

theorem releaseRaw (name : String) (u : RawBlock) :
    Respects (Related R) (Act.releaseRaw name u) := by
  refine .bind (run (.change (hR.release u.block u.size))) fun r => ?_
  split
  · exact .bind (updateRegisters _) fun _ => .pure _
  · exact .pure _

variable {E : Type} [Expression E V] [Discreet E V]

theorem evalAll (r : Registers V) (got : List V) (es : List E) :
    Respects R (Act.evalAll r got es) := by
  induction es generalizing got with
  | nil => exact .pure _
  | cons e es ih =>
    refine .bind (.orElseUndo (Discreet.respects_eval hR r e) (hR.dropAll _)) fun v => ?_
    exact ih (v :: got)

theorem withValue (e : E) {body : V → Act V α} (hbody : ∀ v, Respects (Related R) (body v)) :
    Respects (Related R) (Act.withValue e body) := by
  have hvalue : Respects (Related R) (Act.value e) :=
    .bind (lookRegisters id) fun r => run (Discreet.respects_eval hR r e)
  exact .bind hvalue fun v => .andFinally (hbody v) (mapHeap (hR.drop v))

theorem withValues (es : List E) {body : List V → Act V α}
    (hbody : ∀ vs, Respects (Related R) (body vs)) :
    Respects (Related R) (Act.withValues es body) := by
  have hvalues : Respects (Related R) (Act.values es) :=
    .bind (lookRegisters id) fun r => run (evalAll hR r [] es)
  exact .bind hvalues fun vs => .andFinally (hbody vs) (mapHeap (hR.dropAll vs))

end Session.Related

/-! ## Commands -/

/-- What a command relies on in a relation besides its being a congruence. -/
def Command.Suits {E : Type} (c : Command E) (R : Heap V → Heap V → Prop) : Prop :=
  match c with
  | .rebuild _ _ _ => (R ⇒ R) Heap.unsettled Heap.unsettled
  | .configure settings => (R ⇒ R) ({ · with config := settings }) ({ · with config := settings })
  | .stability => ∀ h g, R h g → h.stable = g.stable
  | _ => True

/-- What a command on values relies on in a relation besides its being a congruence. -/
def ValueCommand.Suits (c : ValueCommand) (R : Heap Value → Heap Value → Prop) : Prop :=
  match c with
  | .common c => c.Suits R
  | _ => True

namespace Congruence

variable [Host V] {R : Heap V → Heap V → Prop} (hR : Congruence R)

include hR

open Session Session.Related

/-- Commands respect every congruence. -/
theorem command {E : Type} [Expression E V] [Discreet E V] {c : Command E} (hc : c.Suits R) :
    Respects (Related R) (Act.ofCommand c) := by
  cases c with
  | null h => exact made hR h _
  | allocate h e =>
    exact withValue hR e fun v => .bind (perform (hR.allocateCell v)) fun p => made hR h p
  | allocateCount h n =>
    exact .bind (perform (hR.allocateCollection _)) fun p => made hR h p
  | allocateValues h es =>
    exact withValues hR es fun vs =>
      .bind (perform (hR.allocateCollection _)) fun p => made hR h p
  | bind h source =>
    exact .bind (handle source) fun p => .bind (perform (hR.bind p)) fun q => made hR h q
  | copy h source =>
    exact .bind (handle source) fun p => .bind (perform (hR.copyPointer p)) fun q => made hR h q
  | rebuild h o n =>
    exact .bind (originAddress o n) fun a => .bind (perform (hR.rebuild hc a n)) fun q =>
      made hR h q
  | drop h =>
    exact .bind (handle h) fun p => .bind (updateRegisters _) fun _ =>
      .bind (updateHeap (hR.dropPointer p)) fun _ => .pure _
  | get h keep =>
    exact .bind (handle h) fun p => .bind (perform (hR.get p)) fun v => answerValue hR keep v
  | set h e =>
    exact .bind (handle h) fun p => .bind (withValue hR e fun v => setThrough hR h p v) fun _ =>
      .pure _
  | getAt h i keep =>
    exact .bind (handle h) fun p => .bind (perform (hR.getAt p i)) fun v => answerValue hR keep v
  | setAt h i e =>
    exact .bind (handle h) fun p => .bind (withValue hR e fun v => perform (hR.setAt p i v))
      fun _ => .pure _
  | swap a b =>
    exact .bind (handle a) fun p => .bind (handle b) fun q =>
      .bind (perform (hR.swapCells p q)) fun _ => .pure _
  | toList h =>
    exact .bind (handle h) fun p => .bind (perform (hR.toList p)) fun vs =>
      .bind (updateHeap (hR.dropAll vs)) fun _ => .pure _
  | inspect h => exact .bind (handle h) fun p => .bind (countOf hR p) fun n => .pure _
  | compare a b => exact .bind (handle a) fun p => .bind (handle b) fun q => .pure _
  | handleSet hs =>
    exact .bind (collect hR [] hs) fun x =>
      .bind (updateHeap (foldl (fun q => hR.dropPointer q) x.2)) fun _ => .pure _
  | define x e =>
    exact .bind (.bind (lookRegisters id) fun r => run (Discreet.respects_eval hR r e)) fun v =>
      .bind (nameVariable hR x v) fun _ => .pure _
  | acquire x keep =>
    exact .bind (variableValue x) fun v => .bind (perform (hR.acquire .caller v)) fun _ =>
      answerValue hR keep v
  | disown x =>
    exact .bind (takeVariable x) fun v => .bind (updateHeap (hR.disown .caller v)) fun _ => .pure _
  | forget x =>
    exact .bind (takeVariable x) fun v => .bind (updateHeap (hR.drop v)) fun _ => .pure _
  | evaluate es => exact withValues hR es fun vs => .pure _
  | rawAllocate u n =>
    exact .bind (perform (hR.allocate n)) fun b => .bind (nameRaw hR u _) fun _ => .pure _
  | rawOf h u =>
    refine .bind (handle h) fun p => ?_
    cases p with
    | null => exact .throw _
    | cells b n =>
      exact .bind (perform (hR.retainOr _ b)) fun _ => .bind (nameRaw hR u _) fun _ => .pure _
  | rawRetain u =>
    exact .bind (rawBlock u) fun w => .bind (perform (hR.retainOr _ w.block)) fun _ =>
      .bind (updateRegisters _) fun _ => .pure _
  | rawRelease u =>
    exact .bind (rawBlock u) fun w => .bind (releaseRaw hR u w) fun r => .pure _
  | rawStore u i e =>
    exact .bind (rawWithCell u i) fun w =>
      .bind (withValue hR e fun v => perform (hR.store w.block i v)) fun _ => .pure _
  | rawRead u i keep =>
    exact .bind (rawWithCell u i) fun w => .bind (perform (hR.read w.block i)) fun v =>
      answerValue hR keep v
  | rawSwap a i b j =>
    exact .bind (rawWithCell a i) fun v => .bind (rawWithCell b j) fun w =>
      .bind (updateHeap (hR.swap v.block i w.block j)) fun _ => .pure _
  | rawCount u i =>
    exact .bind (rawWithCell u i) fun w =>
      .bind (lookHeap (f := (·.countAt w.block i)) fun _ _ hr => (hR.alike hr).countAt w.block i)
        fun n => .pure _
  | rawExpire u =>
    exact .bind (rawBlock u) fun w => .bind (updateHeap (hR.setCount w.block 0)) fun _ => .pure _
  | rawRestore u n =>
    exact .bind (rawBlock u) fun w =>
      .bind (updateHeap (hR.setCount w.block n.toNat)) fun _ => .pure _
  | stats => exact .bind (lookHeap fun _ _ hr => (hR.alike hr).stats) fun st => .pure _
  | configure config => exact .bind (updateHeap hc) fun _ => .pure _
  | config => exact .bind (lookHeap fun _ _ hr => (hR.alike hr).config) fun c => .pure _
  | stability => exact .bind (lookHeap hc) fun b => .pure _

/-- Closing related sessions leaves related heaps. -/
theorem close : (Related R ⇒ Related R) Session.close Session.close := by
  intro s t h
  have hvalues : s.values = t.values := congrArg Registers.values h.1
  have hhandles : s.handles = t.handles := congrArg Registers.handles h.1
  have hraws : s.raws = t.raws := congrArg Registers.raws h.1
  have hheap := foldl (fun x => hR.drop x.2) (Entries.sorted nameLe t.values) h.2
  have hheap' := foldl (fun x => hR.dropPointer x.2) (Entries.sorted nameLe t.handles) hheap
  simp only [Session.close, hvalues, hhandles, hraws]
  exact ⟨rfl, foldl (fun x => hR.giveBack x.2) (Entries.sorted nameLe t.raws) hheap'⟩


end Congruence

open Session.Related in
/-- Commands on values respect every congruence as well. -/
theorem Congruence.valueCommand {R : Heap Value → Heap Value → Prop} (hR : Congruence R)
    {c : ValueCommand} (hc : c.Suits R) : Respects (Session.Related R) (Act.ofValueCommand c) := by
  have hchecked {α : Type} (x : Except HeapError α) :
      Respects (Session.Related R) (Act.checked x) := by
    cases x with
    | error e => exact .throw _
    | ok a => exact .pure a
  cases c with
  | common c => exact .bind (hR.command hc) fun a => .pure _
  | equals h t =>
    exact .bind (handle h) fun p =>
      withValue hR t fun v => .bind (hchecked _) fun b => .pure _
  | load h source =>
    refine .bind (handle source) fun p => .bind (perform (hR.get p)) fun v => ?_
    refine .bind (.andFinally ?_ (mapHeap (hR.drop v))) fun q => ?_
    · exact .bind (hchecked _) fun q => perform (hR.copyPointer q)
    · exact .bind (made hR h q) fun a => .pure _
  | chain h n t =>
    refine .bind (withValue hR t fun v => perform (v.respects_chain hR n)) fun p => ?_
    exact .bind (made hR h p) fun a => .pure _
  | walk h limit =>
    refine .bind (handle h) fun p => .bind (perform (hR.get p)) fun v => ?_
    refine .bind (perform (v.respects_follow hR limit 0)) fun x => ?_
    exact .bind (updateHeap (hR.drop x.2)) fun _ => .pure _
  | sharers x =>
    refine .bind (variableValue x) fun v => .bind (lookHeap fun h g hr => ?_) fun n => .pure _
    rw [Value.sharers, Value.sharers, funext (hR.alike hr).shares]
  | samePayload x y =>
    exact .bind (variableValue x) fun v => .bind (variableValue y) fun w => .pure _

/-! ## Properties of one heap -/

/-- Properties of a heap that are kept by whatever changes what is counted. -/
structure Closed (P : Heap V → Prop) : Prop where
  /-- a block is made -/
  addBlock : ∀ ⦃h⦄ n, P h → h.refusal n = none → P (h.addBlock n)
  /-- a block is destroyed -/
  destroy : ∀ ⦃h⦄ b n, P h → P (h.destroy b n)
  /-- a block is changed -/
  mapBlock : ∀ ⦃h⦄ b f, P h → P (h.mapBlock b f)
  /-- the payloads are changed -/
  payloads : ∀ ⦃h⦄ ps, P h → P { h with payloads := ps }
  /-- something else is told -/
  log : ∀ ⦃h⦄ e, P h → e.Aside h.stats → P (h.log e)
  /-- an access finds nothing -/
  stray : ∀ ⦃h⦄ a, P h → P { h with strays := a :: h.strays }

/-- What a command relies on in a property besides its being closed. -/
def Command.Spares {E : Type} (c : Command E) (P : Heap V → Prop) : Prop :=
  match c with
  | .rebuild _ _ _ => ∀ h, P h → P h.unsettled
  | .configure settings => ∀ h, P h → P { h with config := settings }
  | _ => True

/-- What a command on values relies on in a property besides its being closed. -/
def ValueCommand.Spares (c : ValueCommand) (P : Heap Value → Prop) : Prop :=
  match c with
  | .common c => c.Spares P
  | _ => True

theorem Command.Spares.suits {E : Type} {c : Command E} {P : Heap V → Prop} (hc : c.Spares P) :
    c.Suits fun h g => h = g ∧ P h := by
  cases c with
  | rebuild h o n =>
    rintro h _ ⟨rfl, hp⟩
    exact ⟨rfl, hc h hp⟩
  | configure settings =>
    rintro h _ ⟨rfl, hp⟩
    exact ⟨rfl, hc h hp⟩
  | stability =>
    rintro h _ ⟨rfl, -⟩
    rfl
  | _ => trivial

theorem ValueCommand.Spares.suits {c : ValueCommand} {P : Heap Value → Prop} (hc : c.Spares P) :
    c.Suits fun h g => h = g ∧ P h := by
  cases c with
  | common c => exact Command.Spares.suits hc
  | _ => trivial

namespace Closed

theorem congruence {P : Heap V → Prop} (hP : Closed P) : Congruence fun h g => h = g ∧ P h where
  alike := by
    rintro h _ ⟨rfl, -⟩
    exact ⟨rfl, rfl, rfl, rfl, rfl⟩
  addBlock := by
    rintro h _ n ⟨rfl, hp⟩ hn
    exact ⟨rfl, hP.addBlock n hp hn⟩
  destroy b n := by
    rintro h _ ⟨rfl, hp⟩
    exact ⟨rfl, hP.destroy b n hp⟩
  mapBlock b f := by
    rintro h _ ⟨rfl, hp⟩
    exact ⟨rfl, hP.mapBlock b f hp⟩
  payloads ps := by
    rintro h _ ⟨rfl, hp⟩
    exact ⟨rfl, hP.payloads ps hp⟩
  log := by
    rintro h _ e ⟨rfl, hp⟩ he
    exact ⟨rfl, hP.log e hp he⟩
  stray := by
    rintro h _ a ⟨rfl, hp⟩
    exact ⟨rfl, hP.stray a hp⟩

/-- What respects the congruence of a property keeps the property. -/
theorem of_respects {P : Heap V → Prop} {α : Type} {act : Act V α}
    (hact : Respects (Session.Related fun h g => h = g ∧ P h) act) {s : Session V}
    (hp : P s.heap) : P (act s).2.heap :=
  (hact ⟨rfl, rfl, hp⟩).2.2.2

/-- A command keeps what is closed. -/
theorem step [Host V] {E : Type} [Expression E V] [Discreet E V] {P : Heap V → Prop}
    (hP : Closed P) {c : Command E} (hc : c.Spares P) {s : Session V} (hp : P s.heap) :
    P (s.step c).2.heap :=
  of_respects (hP.congruence.command hc.suits) hp

/-- A command on values keeps what is closed. -/
theorem stepValue {P : Heap Value → Prop} (hP : Closed P) {c : ValueCommand} (hc : c.Spares P)
    {s : Session Value} (hp : P s.heap) : P (s.stepValue c).2.heap :=
  of_respects (hP.congruence.valueCommand hc.suits) hp

/-- Closing a session keeps what is closed. -/
theorem close [Host V] {P : Heap V → Prop} (hP : Closed P) {s : Session V} (hp : P s.heap) :
    P s.close.heap :=
  (hP.congruence.close (show Session.Related _ s s from ⟨rfl, rfl, hp⟩)).2.2

end Closed

end CountedCells

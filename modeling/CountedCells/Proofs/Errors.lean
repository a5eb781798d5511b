import CountedCells.Proofs.Safety

/-!
# Errors: which one is reported, and that nothing happens then

An `Operation` is something that can be asked of pointers and cells, with its arguments. For each
there is a **cause** (`Operation.cause?`): the error that it reports in a given heap, in the order
in which the checks are made. In every session that a careful run reaches, with blocks whose count
is zero or without, an operation reports its cause and nothing else, and then the heap and the
pointers that it was given are what they were (`Reached.reports`).

An operation that gets past its checks reports no error any more: what it does then is `Quiet`. It
may still be abandoned where it copies a pointer to a block whose count is zero or cannot be raised,
but this is not reported.
-/

namespace CountedCells

open Attempt

/-- Why an attempt ended early, if it did. -/
def Attempt.reason? {ε α : Type} : Except ε α → Option ε
  | .ok _ => none
  | .error e => some e

variable {V : Type}

/-! ## Operations -/

/-- Something that can be asked of pointers and cells. -/
inductive Operation (V : Type) where
  /-- make a cell with a value -/
  | allocate (v : V)
  /-- make a block of cells -/
  | allocateCollection (filling : Filling V)
  /-- make a second pointer to the same block -/
  | bind (p : Pointer)
  /-- copy a pointer -/
  | copy (p : Pointer)
  /-- take one more reference to a block of `n` cells by hand -/
  | retain (b : BlockId) (n : Nat)
  /-- take one more reference to a value -/
  | acquire (v : V)
  /-- read a single cell -/
  | get (p : Pointer)
  /-- write a single cell, or a fresh one through a null pointer -/
  | set (p : Pointer) (v : V)
  /-- read the cell `i` -/
  | getAt (p : Pointer) (i : Nat)
  /-- write the cell `i` -/
  | setAt (p : Pointer) (i : Nat) (v : V)
  /-- exchange the values of two single cells -/
  | swap (p q : Pointer)
  /-- read all cells -/
  | toList (p : Pointer)

/-- What has become of an operation: why it ended early, if it did, the pointers that it was given,
as it left them, and the heap. -/
structure Outcome (V : Type) where
  /-- why it ended early -/
  fault? : Option Fault
  /-- the pointers it was given -/
  pointers : List Pointer
  /-- the heap -/
  heap : Heap V

namespace Operation

/-- The pointers that the operation is given. -/
def pointers : Operation V → List Pointer
  | allocate _ | allocateCollection _ | acquire _ => []
  | bind p | copy p | get p | set p _ | getAt p _ | setAt p _ _ | toList p => [p]
  | retain b n => [.cells b n]
  | swap p q => [p, q]

variable [Host V]

/-- The values that the operation is given. -/
def values : Operation V → List V
  | allocate v | acquire v | set _ v | setAt _ _ v => [v]
  | allocateCollection filling => filling.contents
  | bind _ | copy _ | retain _ _ | get _ | getAt _ _ | swap _ _ | toList _ => []

/-- Carry out an operation. Only a write can leave its pointer as another one. -/
def run (o : Operation V) (h : Heap V) : Outcome V :=
  let outcome {α : Type} (act : Action V α) : Outcome V :=
    ⟨reason? (act h).1, o.pointers, (act h).2⟩
  match o with
  | allocate v => outcome (Pointer.allocate v)
  | allocateCollection filling => outcome (Pointer.allocateCollection filling)
  | bind p => outcome p.bind
  | copy p => outcome p.copy
  | retain b _ => outcome (Heap.retain b)
  | acquire v => outcome (Heap.acquire .caller v)
  | get p => outcome p.get
  | set p v => ⟨reason? (p.set v h).1.2, [(p.set v h).1.1], (p.set v h).2⟩
  | getAt p i => outcome (p.getAt i)
  | setAt p i v => outcome (p.setAt i v)
  | swap p q => outcome (p.swap q)
  | toList p => outcome p.toList

end Operation

/-! ## Causes -/

/-- There is room for `n` more cells: within the limit, if there is one, and in the system. -/
def Heap.HasRoom (h : Heap V) (n : Nat) : Prop :=
  (h.config.cellLimit.all fun limit => h.stats.liveCells + n ≤ limit.toNat) ∧
    h.system.refuses h.stats n = false

instance (h : Heap V) (n : Nat) : Decidable (h.HasRoom n) := instDecidableAnd

/-- Why a block of `n` cells cannot be made; no cells at all are refused before anything else is
looked at. -/
def Heap.shortage? (h : Heap V) (n : Nat) : Option HeapError :=
  if n = 0 then some .emptyCollection
  else if h.HasRoom n then none
  else some (.allocation n)

namespace Pointer

/-- Why there is nothing behind a pointer. -/
def absent? : Pointer → Option HeapError
  | null => some .nullDereference
  | cells _ _ => none

/-- Why a pointer is not one to a single cell. -/
def notSingle? : Pointer → Option HeapError
  | null => some .nullDereference
  | cells _ n =>
    if 1 < n then some (.typeMismatch "scalar pointer" ("collection of " ++ toString n)) else none

/-- Why a pointer has no cell `i`. -/
def outside? (i : Nat) : Pointer → Option HeapError
  | null => some .nullDereference
  | cells _ n => if n ≤ i then some (.indexOutOfRange i n) else none

/-- Why there can be no second pointer to the same block. -/
def expired? (h : Heap V) : Pointer → Option HeapError
  | null => none
  | cells b _ => if h.count b = 0 then some (.expired (.block b)) else none

end Pointer

/-- The error that an operation reports, if it does. -/
def Operation.cause? (o : Operation V) (h : Heap V) : Option HeapError :=
  match o with
  | allocate _ => h.shortage? 1
  | allocateCollection filling => h.shortage? filling.size
  | bind p => p.expired? h
  | copy _ => none
  | retain b n => (Pointer.cells b n).expired? h
  | acquire _ => none
  | get p => p.notSingle?
  | set .null _ => h.shortage? 1
  | set (.cells b n) _ => (Pointer.cells b n).notSingle?
  | getAt p i => p.outside? i
  | setAt p i _ => p.outside? i
  | swap p q => p.notSingle?.or q.notSingle?
  | toList p => p.absent?

theorem Heap.refusal_eq (h : Heap V) (n : Nat) : h.refusal n = h.shortage? n := by
  have hroom : h.HasRoom n ↔ h.config.admits h.stats.liveCells n = true ∧
      h.system.refuses h.stats n = false := by
    refine and_congr_left fun _ => ?_
    rcases hc : h.config with ⟨_ | limit⟩
    · simp [Config.admits]
    · simp [Config.admits_iff]
  rw [refusal, shortage?]
  by_cases hn : n = 0
  · rw [if_pos hn, if_pos hn]
  · rw [if_neg hn, if_neg hn]
    by_cases hadmits : h.config.admits h.stats.liveCells n = true
    · rcases hsystem : h.system.refuses h.stats n
      · rw [if_pos (hroom.mpr ⟨hadmits, hsystem⟩), hadmits, if_neg Bool.noConfusion,
          if_neg Bool.noConfusion]
      · rw [if_neg fun hr => Bool.noConfusion (hsystem.symm.trans (hroom.mp hr).2), hadmits,
          if_neg Bool.noConfusion, if_pos rfl]
    · rw [if_neg fun hr => hadmits (hroom.mp hr).1, if_pos (Bool.eq_false_of_not_eq_true hadmits)]

theorem Heap.pos_of_shortage? {h : Heap V} {n : Nat} (hn : h.shortage? n = none) : 0 < n :=
  pos_of_refusal (by rw [refusal_eq, hn])

/-- Where there is room, a block of unset cells is made. -/
theorem Heap.allocate_of_room {h : Heap V} {n : Nat} (hn : h.shortage? n = none) :
    Heap.allocate n h = (.ok h.blocks.length, h.addBlock n) := by
  rw [allocate, refusal_eq, hn]

/-- Where there is none, nothing is made. -/
theorem Heap.allocate_of_shortage {h : Heap V} {n : Nat} {e : HeapError}
    (hn : h.shortage? n = some e) : Heap.allocate n h = (.error (.error e), h) := by
  rw [allocate, refusal_eq, hn]

namespace Pointer

theorem reason?_block? (p : Pointer) : reason? p.block? = p.absent? := by
  cases p <;> rfl

theorem reason?_scalar? (p : Pointer) : reason? p.scalar? = p.notSingle? := by
  cases p with
  | null => rfl
  | cells b n =>
    by_cases hn : 1 < n
    · simp [scalar?, block?, isCollection, size, notSingle?, hn, reason?, HeapError.notScalar]
    · simp [scalar?, block?, isCollection, size, notSingle?, hn, reason?]

theorem reason?_slot? (p : Pointer) (i : Nat) : reason? (p.slot? i) = p.outside? i := by
  cases p with
  | null => rfl
  | cells b n =>
    by_cases hi : i < n
    · simp [slot?, block?, size, outside?, hi, Nat.not_le_of_lt hi, reason?]
    · simp [slot?, block?, size, outside?, hi, Nat.le_of_not_lt hi, reason?]

end Pointer

/-! ## What reports no error -/

/-- The operation reports no error, wherever it starts from. -/
def Quiet {α : Type} (act : Action V α) : Prop := ∀ h e, (act h).1 ≠ .error (.error e)

section Quiet

variable {α β : Type}

theorem quiet_pure (a : α) : Quiet (pure a : Action V α) := nofun

theorem quiet_update (f : Heap V → Heap V) : Quiet (update f : Action V Unit) := nofun

theorem quiet_look (f : Heap V → α) : Quiet (look f : Action V α) := nofun

theorem Quiet.bind {act : Action V α} {f : α → Action V β} (hact : Quiet act)
    (hf : ∀ a, Quiet (f a)) : Quiet (act >>= f) := by
  intro h e
  rcases hrun : act h with ⟨fault | a, h'⟩
  · rw [bind_of_error hrun]
    intro heq
    cases heq
    exact hact h e (by rw [hrun])
  · rw [bind_of_ok hrun]
    exact hf a h' e

theorem Quiet.orElseUndo {act : Action V α} (hact : Quiet act) (undo : Heap V → Heap V) :
    Quiet (act.orElseUndo undo) := by
  intro h e
  have hnow := hact h e
  rw [Attempt.orElseUndo]
  rcases hrun : act h with ⟨fault | a, h'⟩
  · rw [hrun] at hnow
    exact hnow
  · intro heq
    cases heq

theorem quiet_copyRef (r : Ref) : Quiet (Heap.copyRef r : Action V Unit) := by
  intro h e
  rcases r with ⟨b, n⟩ | p
  · rcases hrun : Heap.copyRef (.block b n) h with ⟨fault | u, h'⟩
    · obtain ⟨-, rfl, -⟩ | ⟨-, rfl, -⟩ := Heap.retainOr_eq_error hrun <;> exact nofun
    · exact nofun
  · exact quiet_update _ h e

variable [Host V]

theorem quiet_acquire (holder : Holder) (v : V) : Quiet (Heap.acquire holder v) := by
  have hcopy : Quiet (Heap.copy v) := by
    rw [Heap.copy]
    rcases Host.ref v with - | r
    · exact quiet_pure ()
    · exact quiet_copyRef r
  exact hcopy.bind fun _ => quiet_update _

theorem quiet_store (b : BlockId) (i : Nat) (v : V) : Quiet (Heap.store b i v) :=
  (quiet_acquire .cell v).bind fun _ => quiet_update _

theorem quiet_read (b : BlockId) (i : Nat) : Quiet (Heap.read b i : Action V V) := by
  refine (quiet_update _).bind fun _ => (quiet_look _).bind fun o => ?_
  rcases o with - | v
  · exact quiet_pure default
  · exact (quiet_acquire .caller v).bind fun _ => quiet_pure v

theorem quiet_readOn (b : BlockId) (n i : Nat) (got : List V) :
    Quiet (Pointer.readOn b n i got) := by
  induction n generalizing i got with
  | zero => exact quiet_pure got.reverse
  | succ n ih => exact ((quiet_read b i).orElseUndo _).bind fun v => ih (i + 1) (v :: got)

/-- Filling a block never gets to a cell that is not there. -/
theorem quiet_fill (b : BlockId) {n : Nat} (vs : List V) {i : Nat} (hi : i + vs.length ≤ n) :
    Quiet ((Pointer.cells b n).fill i vs) := by
  induction vs generalizing i with
  | nil => exact quiet_pure ()
  | cons v vs ih =>
    rw [List.length_cons] at hi
    have hslot : (Pointer.cells b n).slot? i = .ok b := if_pos (by omega : i < n)
    have hset : Quiet ((Pointer.cells b n).setAt i v) := by
      rw [Pointer.setAt, hslot]
      exact quiet_store b i v
    exact hset.bind fun _ => ih (by omega)

end Quiet

/-! ## Reports -/

/-- The operation reports the cause, if there is one, and leaves the heap alone then. Without a
cause it reports no error. -/
def Reports {α : Type} (act : Action V α) (h : Heap V) (cause : Option HeapError) : Prop :=
  match cause with
  | some e => act h = (.error (.error e), h)
  | none => ∀ e, (act h).1 ≠ .error (.error e)

section Reports

variable {α β : Type} {h : Heap V}

theorem Quiet.reports {act : Action V α} (hact : Quiet act) : Reports act h none :=
  fun e => hact h e

/-- A check goes first. -/
theorem Reports.checked {x : Except HeapError α} {f : α → Action V β} {cause : Option HeapError}
    (hf : ∀ a, Reports (f a) h cause) :
    Reports (Pointer.checked x >>= f) h ((reason? x).or cause) := by
  cases x with
  | error e => rfl
  | ok a => exact hf a

theorem Reports.check {x : Except HeapError α} {f : α → Action V β} (hf : ∀ a, Quiet (f a)) :
    Reports (Pointer.checked x >>= f) h (reason? x) := by
  rw [← Option.or_none (o := reason? x)]
  exact .checked fun a => (hf a).reports

/-- So does a request for cells. -/
theorem Reports.allocate {n : Nat} {f : BlockId → Action V β} (hf : ∀ b, Quiet (f b)) :
    Reports (Heap.allocate n >>= f) h (h.shortage? n) := by
  rcases hn : h.shortage? n with - | e
  · intro e
    rw [bind_of_ok (Heap.allocate_of_room hn)]
    exact hf _ _ e
  · exact bind_of_error (Heap.allocate_of_shortage hn)

/-- A reference by hand is refused where the count is zero. -/
theorem Reports.retain {b : BlockId} {block : Block V} (hb : h.block? b = some block) (n : Nat) :
    Reports (Heap.retain b) h ((Pointer.cells b n).expired? h) := by
  rw [Pointer.expired?]
  by_cases hc : h.count b = 0
  · rw [if_pos hc]
    show Heap.retain b h = _
    rw [Heap.retain, Heap.retainOr_of_zero hc, Heap.touch_eq hb (Nat.succ_pos _)]
  · rw [if_neg hc]
    intro e
    rcases hrun : Heap.retain b h with ⟨fault | u, h'⟩ <;> intro heq
    · obtain ⟨hzero, -⟩ | ⟨-, rfl, -⟩ := Heap.retainOr_eq_error hrun
      · exact hc hzero
      · cases heq
    · cases heq

/-- An operation after one that succeeds without changing what it reports. -/
theorem Reports.bind_quiet {act : Action V α} {cause : Option HeapError}
    (hact : Reports act h cause) {f : α → Action V β} (hf : ∀ a, Quiet (f a)) :
    Reports (act >>= f) h cause := by
  cases cause with
  | some e => exact bind_of_error hact
  | none =>
    intro e
    rcases hrun : act h with ⟨fault | a, h'⟩
    · rw [bind_of_error hrun]
      intro heq
      cases heq
      exact hact e (by rw [hrun])
    · rw [bind_of_ok hrun]
      exact hf a h' e

end Reports

section Pointers

variable {h : Heap V}

theorem Pointer.reports_bind {p : Pointer}
    (hp : ∀ b n, p = .cells b n → ∃ block, h.block? b = some block) :
    Reports (p.bind : Action V Pointer) h (p.expired? h) := by
  cases p with
  | null => nofun
  | cells b n =>
    obtain ⟨block, hb⟩ := hp b n rfl
    exact (Reports.retain hb n).bind_quiet fun _ => quiet_pure _

theorem Pointer.quiet_copy (p : Pointer) : Quiet (p.copy : Action V Pointer) := by
  cases p with
  | null => exact quiet_pure _
  | cells b n => exact (quiet_copyRef _).bind fun _ => quiet_pure _

variable [Host V]

theorem Pointer.reports_allocate (v : V) :
    Reports (Pointer.allocate v) h (h.shortage? 1) :=
  .allocate fun b => ((quiet_store b 0 v).orElseUndo _).bind fun _ => quiet_pure _

theorem Pointer.reports_allocateCollection (filling : Filling V) :
    Reports (Pointer.allocateCollection filling) h (h.shortage? filling.size) := by
  have hlength : 0 + filling.contents.length ≤ filling.size := by
    rw [filling.length_contents, Nat.zero_add]
  exact .allocate fun b =>
    ((quiet_fill b _ hlength).orElseUndo _).bind fun _ => quiet_pure _

/-- A write through a null pointer is a request for a cell; once there is one, it gets past the
checks. -/
theorem Pointer.set_null_eq (v : V) :
    (Pointer.null).set v h =
      match h.refusal 1 with
      | some e => ((.null, .error (.error e)), h)
      | none =>
        let b := h.blocks.length
        let g := (h.addBlock 1).log (.upgraded b)
        ((.cells b 1, (Heap.store b 0 v g).1), (Heap.store b 0 v g).2) := by
  rw [Heap.refusal_eq]
  rcases hn : h.shortage? 1 with - | e
  · have hupgrade : (Pointer.null).upgrade h =
        (.ok (.cells h.blocks.length 1), (h.addBlock 1).log (.upgraded h.blocks.length)) :=
      bind_of_ok (Heap.allocate_of_room hn)
    rw [Pointer.set, hupgrade]
    rfl
  · have hupgrade : (Pointer.null).upgrade h = (.error (.error e), h) :=
      bind_of_error (Heap.allocate_of_shortage hn)
    rw [Pointer.set, hupgrade]

end Pointers

/-! ## Every operation -/

/-- The outcome of an operation that is given these pointers and starts from this heap. -/
structure Outcome.Reports (out : Outcome V) (cause : Option HeapError) (given : List Pointer)
    (h : Heap V) : Prop where
  /-- if there is a cause it is reported, and nothing has changed -/
  reported : ∀ e, cause = some e → out = ⟨some (.error e), given, h⟩
  /-- nothing else is reported -/
  only : ∀ e, out.fault? = some (.error e) → cause = some e

theorem eq_error_of_reason? {ε α : Type} {out : Except ε α} {e : ε} (h : reason? out = some e) :
    out = .error e := by
  cases out with
  | ok a => cases h
  | error e' =>
    cases h
    rfl

theorem Reports.outcome {α : Type} {act : Action V α} {h : Heap V} {cause : Option HeapError}
    (hact : Reports act h cause) (given : List Pointer) :
    Outcome.Reports ⟨reason? (act h).1, given, (act h).2⟩ cause given h := by
  cases cause with
  | some e =>
    have hrun : act h = (.error (.error e), h) := hact
    rw [hrun]
    refine ⟨?_, ?_⟩
    · rintro - ⟨rfl⟩
      rfl
    · rintro - ⟨rfl⟩
      rfl
  | none => exact ⟨nofun, fun e he => (hact e (eq_error_of_reason? he)).elim⟩

namespace Operation

variable [Host V] {h : Heap V}

/-- A write through a null pointer is refused if there is no room for a cell, and reports nothing
else. -/
theorem reports_set_null (v : V) :
    ((set .null v).run h).Reports (h.shortage? 1) [.null] h := by
  rw [← Heap.refusal_eq, run, Pointer.set_null_eq]
  rcases h.refusal 1 with - | e
  · refine ⟨nofun, fun e he => ?_⟩
    exact (quiet_store _ 0 v _ e (eq_error_of_reason? he)).elim
  · refine ⟨?_, ?_⟩
    · rintro - ⟨rfl⟩
      rfl
    · rintro - ⟨rfl⟩
      rfl

/-- An operation reports its cause and nothing else, and leaves everything alone when it does. -/
theorem reports (o : Operation V)
    (ho : ∀ b n, .cells b n ∈ o.pointers → ∃ block, h.block? b = some block) :
    (o.run h).Reports (o.cause? h) o.pointers h := by
  cases o with
  | allocate v => exact (Pointer.reports_allocate v).outcome _
  | allocateCollection filling => exact (Pointer.reports_allocateCollection filling).outcome _
  | bind p =>
    refine (Pointer.reports_bind fun b n hp => ho b n ?_).outcome _
    exact hp ▸ List.mem_singleton_self _
  | copy p => exact p.quiet_copy.reports.outcome _
  | retain b n =>
    obtain ⟨block, hb⟩ := ho b n (List.mem_singleton_self _)
    exact (Reports.retain hb n).outcome _
  | acquire v => exact (quiet_acquire .caller v).reports.outcome _
  | get p =>
    have hget : Reports p.get h (reason? p.scalar?) := .check fun b => quiet_read b 0
    rw [p.reason?_scalar?] at hget
    exact hget.outcome _
  | set p v =>
    cases p with
    | null => exact reports_set_null v
    | cells b n =>
      have hset : Reports (do
          let c ← Pointer.checked (Pointer.cells b n).scalar?
          Heap.store c 0 v : Action V Unit) h (reason? (Pointer.cells b n).scalar?) :=
        .check fun c => quiet_store c 0 v
      rw [Pointer.reason?_scalar?] at hset
      exact hset.outcome _
  | getAt p i =>
    have hget : Reports (p.getAt i) h (reason? (p.slot? i)) := .check fun b => quiet_read b i
    rw [p.reason?_slot?] at hget
    exact hget.outcome _
  | setAt p i v =>
    have hset : Reports (p.setAt i v) h (reason? (p.slot? i)) := .check fun b => quiet_store b i v
    rw [p.reason?_slot?] at hset
    exact hset.outcome _
  | swap p q =>
    have hswap : Reports (p.swap q : Action V Unit) h
        ((reason? p.scalar?).or (reason? q.scalar?)) :=
      .checked fun b => .check fun c => quiet_update _
    rw [p.reason?_scalar?, q.reason?_scalar?] at hswap
    exact hswap.outcome _
  | toList p =>
    have hlist : Reports p.toList h (reason? p.block?) :=
      .check fun b => quiet_readOn b p.size 0 []
    rw [p.reason?_block?] at hlist
    exact hlist.outcome _

end Operation

/-! ## Sessions -/

/-- The session has the pointer: it is null or the pointer of a handle, it is what the references of
a raw block refer to, or some value contains it. -/
def Session.Points (s : Session Value) (p : Pointer) : Prop :=
  p = .null ∨ (∃ name, s.handles.lookup name = some p) ∨
    (∃ name u, s.raws.lookup name = some u ∧ p = .cells u.block u.size) ∨
    ∃ v, s.Has v ∧ v.datum.Holds p

/-- What a session in order points to is owned. -/
theorem Session.InOrder.mem_refs {s : Session Value} {w : Written Value} (hs : s.InOrder w)
    {b : BlockId} {n : Nat} (hp : s.Points (.cells b n)) : .block b n ∈ (s.ledger w).refs := by
  rcases hp with hp | ⟨name, hp⟩ | ⟨name, u, hu, hp⟩ | ⟨v, hv, hp⟩
  · cases hp
  · exact Ledger.mem_refs_of_owned (Registers.keeps_handle (le_refl s.owners) hp b n rfl)
  · cases hp
    exact Ledger.mem_refs_of_owned (Registers.mem_refs_raw (le_refl s.owners) hs.proper hu)
  · exact hs.sound.mem_refs_of_holds hv.ledger hp

/-- In every session that a careful run reaches, whatever counts are zero, an operation on pointers
that the session has reports its cause: it reports no other error and does not keep silent, and
whenever it reports an error, the heap and the pointers that it was given are what they were. -/
theorem Reached.operations_report {s : Session Value}
    (hs : Reached Session.stepValue ValueCommand.Careful s) {o : Operation Value}
    (ho : ∀ p ∈ o.pointers, s.Points p) :
    (∀ e, (o.run s.heap).fault? = some (.error e) ↔ o.cause? s.heap = some e) ∧
      ∀ e, (o.run s.heap).fault? = some (.error e) →
        (o.run s.heap).heap = s.heap ∧ (o.run s.heap).pointers = o.pointers := by
  obtain ⟨w, hw⟩ := hs.inOrder
  have hreports : (o.run s.heap).Reports (o.cause? s.heap) o.pointers s.heap := by
    refine o.reports fun b n hmem => ?_
    obtain ⟨block, hb, -⟩ :=
      (Stage.start hw.sound hw.recorded).exists_block (hw.mem_refs (ho _ hmem))
    exact ⟨block, hb⟩
  refine ⟨fun e => ⟨hreports.only e, fun hcause => ?_⟩, fun e he => ?_⟩
  · rw [hreports.reported e hcause]
  · rw [hreports.reported e (hreports.only e he)]
    exact ⟨rfl, rfl⟩

/-- Two blocks, the count of the first set to zero, and a limit of no cells. A collection of no
cells is refused for being empty, and a write through a null pointer for the limit; a second pointer
is refused where the count is zero; and of two pointers that are exchanged the first is to blame if
it is null, and the second one else, as it has two cells. -/
theorem damaged_session_reports :
    let s := Session.runValue [.common (.allocate "a" (.int 5)), .common (.allocateCount "b" 2),
      .common (.rawOf "a" "u"), .common (.rawExpire "u"), .common (.configure ⟨some 0⟩)]
      (.empty (.ofMemory 100))
    let a := Pointer.cells 0 1
    let b := Pointer.cells 1 2
    let fault? (o : Operation Value) := (o.run s.heap).fault?
    s.handles = [("a", a), ("b", b)] ∧
      fault? (.allocateCollection (.count 0)) = some (.error .emptyCollection) ∧
      fault? (.set .null default) = some (.error (.allocation 1)) ∧
      fault? (.bind a) = some (.error (.expired (.block 0))) ∧
      fault? (.swap .null b) = some (.error .nullDereference) ∧
      fault? (.swap a b) = some (.error (.typeMismatch "scalar pointer" "collection of 2")) := by
  intro s a b fault?
  have hs : Reached Session.stepValue ValueCommand.Careful s :=
    (((((Reached.start _).step trivial).step trivial).step trivial).step trivial).step trivial
  have hhandles : s.handles = [("a", a), ("b", b)] := by decide +kernel
  have ha : s.Points a := .inr (.inl ⟨"a", by rw [hhandles]; rfl⟩)
  have hb : s.Points b := .inr (.inl ⟨"b", by rw [hhandles]; rfl⟩)
  have hnull : s.Points .null := .inl rfl
  have hreports (o : Operation Value) (ho : ∀ p ∈ o.pointers, s.Points p) (e : HeapError)
      (hcause : o.cause? s.heap = some e) : fault? o = some (.error e) :=
    ((hs.operations_report ho).1 e).mpr hcause
  refine ⟨hhandles, hreports _ (List.forall_mem_nil _) _ (by decide +kernel),
    hreports _ (by simpa [Operation.pointers]) _ (by decide +kernel),
    hreports _ (by simpa [Operation.pointers]) _ (by decide +kernel),
    hreports _ (by simp [Operation.pointers, hnull, hb]) _ rfl,
    hreports _ (by simp [Operation.pointers, ha, hb]) _ (by decide +kernel)⟩

end CountedCells

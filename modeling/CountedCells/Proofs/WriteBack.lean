import CountedCells.Proofs.Conservation
import CountedCells.Proofs.Orderly
import CountedCells.Proofs.Refinement

/-!
# Writing back: what a write can never destroy

A value that was read from a cell is stored there again, and then dropped. Each of the three steps
takes a reference or gives one back, and they come in an order in which nothing is ever short of
one: reading takes one for the caller, storing takes one for the cell before the cell gives back
what it held, and the caller's goes last. So at every moment the heap is `Ahead` of what it was, and
in the end it is what it was (`Heap.writesBack`), even if the cell held the only reference to a
block, to a payload with pointers inside, or to the block that it is a cell of. All that it takes is
that the block that the value points to can be counted two more times (`Heap.SpareFor`).

In general a cell that is written holds something else before, and a cascade may follow. But a value
is put into the cell before the cell gives anything back, so the cell holds it already when the
cascade sets out, and it goes on to hold it. Whatever can be reached from there has an owner all the
while, and so it is left alone (`Heap.Installs`).
-/

namespace CountedCells

open Attempt Relation

variable {V : Type}

/-- A cell that is set to what it holds stays as it is. -/
theorem Heap.setValue_eq_self {h : Heap V} {b : BlockId} {i : Nat} {v : V}
    (hv : h.value? b i = some v) : h.setValue b i (some v) = h := by
  have modify_eq_self {α : Type} {xs : List α} {j : Nat} {x : α} {f : α → α}
      (hx : xs[j]? = some x) (hf : f x = x) : xs.modify j f = xs := by
    obtain ⟨hj, rfl⟩ := List.getElem?_eq_some_iff.mp hx
    rw [modify_eq_set_of_getElem? f hx, hf]
    exact List.set_getElem_self hj
  obtain ⟨⟨head, rest⟩, hb, hvalue⟩ := Option.bind_eq_some_iff.mp hv
  obtain ⟨cell, hcell, hset⟩ := Option.bind_eq_some_iff.mp hvalue
  have hsame : Block.withValue ⟨head, rest⟩ i (some v) = ⟨head, rest⟩ := by
    rw [← hset]
    cases i with
    | zero =>
      obtain rfl : head = cell := Option.some.inj hcell
      rfl
    | succ i =>
      have hrest : rest[i]? = some cell := hcell
      rw [Block.withValue, modify_eq_self hrest rfl]
  rw [setValue, mapBlock, modify_eq_self (block?_eq_some_iff.mp hb) (congrArg some hsame)]

variable [Host V]

/-! ## What was read is stored again -/

namespace Heap

/-- What the value points to, if it is a pointer, can be counted so many more times. -/
def SpareFor (h : Heap V) (k : Nat) (v : V) : Prop :=
  ∀ b n, Host.ref v = some (.block b n) → h.count b + k < Config.countRange

/-- A value is read and written, and then dropped. The cell holds it all the time; whenever there is
something left to do the heap is as it was but for references that have been taken in addition, and
in the end it is as it was. -/
def WritesBack (h : Heap V) (read : Action V V) (write : Action V Unit) (b : BlockId) (i : Nat)
    (v : V) : Prop :=
  ∃ h₁ h₂, read h = (.ok v, h₁) ∧ write h₁ = (.ok (), h₂.settle [.disown .cell v]) ∧
    h₂.value? b i = some v ∧ (∃ rs, h.Ahead rs h₁) ∧
    (∀ us g, ReflTransGen Task.Step ([.disown .cell v], h₂) (us, g) → ∃ rs, h.Ahead rs g) ∧
    (∀ us g, ReflTransGen Task.Step (Task.dropsOf v, h₂.settle [.disown .cell v]) (us, g) →
      ∃ rs, h.Ahead rs g) ∧
    h.Restored ((h₂.settle [.disown .cell v]).drop v)

variable {h g : Heap V} {vs : List V} {v : V}

/-- When values are dropped that have been acquired, nothing goes on the way. -/
theorem Ahead.of_steps {rs : List Ref} {rs' : Multiset Ref} (ha : h.Ahead (rs + rs') g)
    (hrs : ∀ r ∈ rs, h.Live r) {us : List (Task V)} {k : Heap V}
    (hsteps : ReflTransGen Task.Step (rs.map .drop, g) (us, k)) : ∃ rs, h.Ahead rs k := by
  induction rs generalizing g with
  | nil =>
    obtain heq | ⟨_, hstep, -⟩ := hsteps.cases_head
    · cases heq
      exact ⟨_, ha⟩
    · cases hstep
  | cons r rs ih =>
    obtain heq | ⟨_, ⟨⟩, hrest⟩ := hsteps.cases_head
    · cases heq
      exact ⟨_, ha⟩
    · rw [← Multiset.cons_coe, Multiset.cons_add] at ha
      obtain ⟨g', hcarry, ha'⟩ := ha.give (hrs r List.mem_cons_self)
      rw [hcarry] at hrest
      exact ih ha' (fun r' hr' => hrs r' (List.mem_cons_of_mem r hr')) hrest

theorem Acquired.ahead_of_dropsOf (ha : h.Acquired (v :: vs) g) {us : List (Task V)} {k : Heap V}
    (hsteps : ReflTransGen Task.Step (Task.dropsOf v, g) (us, k)) : ∃ rs, h.Ahead rs k := by
  obtain ⟨hahead, hlive, -⟩ := ha.head
  exact hahead.of_steps hlive hsteps

theorem Acquired.ahead_of_disown {holder : Holder} (ha : h.Acquired (v :: vs) g)
    {us : List (Task V)} {k : Heap V}
    (hsteps : ReflTransGen Task.Step ([.disown holder v], g) (us, k)) : ∃ rs, h.Ahead rs k := by
  obtain heq | ⟨_, ⟨⟩, hrest⟩ := hsteps.cases_head
  · cases heq
    exact ⟨_, ha.ahead⟩
  · rw [List.append_nil] at hrest
    exact (ha.log _).ahead_of_dropsOf hrest

/-- A value is acquired where there is a count that can be raised. -/
theorem exists_acquire (hv : h.Counted v) (hspare : h.SpareFor 1 v) (holder : Holder) :
    ∃ g, Heap.acquire holder v h = (.ok (), g) ∧ h.Calls (h.acquiring holder [v]) g := by
  have hends := ends_acquire_of_counted hv holder
  rcases hrun : Heap.acquire holder v h with ⟨f | u, g⟩
  · obtain ⟨b, n, hr, ⟨hzero, -⟩ | ⟨hfull, -⟩⟩ := copy_eq_error (acquire_eq_error hrun)
    · exact absurd hzero (Nat.ne_of_gt (hv b n hr))
    · exact absurd (hspare b n hr) (Nat.not_lt.mpr hfull)
  · rw [hrun] at hends
    exact ⟨g, rfl, hends.1⟩

/-- To read a cell that is set means to acquire its value. -/
theorem read_apply {b i : Nat} {block : Block V} (hb : h.block? b = some block)
    (hlt : i < block.size) :
    Heap.read b i h =
      (match h.value? b i with
        | none => pure default
        | some v => Heap.acquire .caller v >>= fun _ => pure v : Action V V) h := by
  refine (bind_of_ok (update_apply _ h)).trans ((bind_of_ok (look_apply _ _)).trans ?_)
  rewrite [touch_eq hb hlt]
  cases h.value? b i <;> rfl

/-- On an intact heap, what is read from a cell can be stored there again. -/
theorem writesBack (hi : h.Intact) {b : BlockId} {i : Nat} (hv : h.value? b i = some v)
    (hspare : h.SpareFor 2 v) :
    h.WritesBack (Heap.read b i) (Heap.store b i v) b i v := by
  obtain ⟨block, hb, hvalue⟩ := Option.bind_eq_some_iff.mp hv
  have hstored : v ∈ block.stored := Block.mem_stored_of_value? hvalue
  have hleads : ∀ u ∈ block.stored, h.LeadsFrom u := fun u hu =>
    hi.leads u (mem_held.mpr (.inl ⟨b, block, hb, hu⟩))
  have hlt : i < block.size := by
    obtain ⟨cell, hcell, -⟩ := Option.bind_eq_some_iff.mp hvalue
    exact (List.getElem?_eq_some_iff.mp hcell).1
  -- reading takes a reference for the caller
  have hcounted := hi.counted (hleads v hstored)
  obtain ⟨h₁, hrun, hcalls⟩ :=
    exists_acquire hcounted (fun c n hr => Nat.lt_of_succ_lt (hspare c n hr)) .caller
  have hread : Heap.read b i h = (.ok v, h₁) := by
    rw [read_apply hb hlt, hv]
    exact bind_of_ok hrun
  have hacquired := (Acquired.nil h).ends_read hb hlt hleads
  rw [hread] at hacquired
  -- storing takes one for the cell, which is set to what it holds already
  have hspare' : h₁.SpareFor 1 v := fun c n hr =>
    Nat.lt_of_le_of_lt (Nat.add_le_add_right (hcalls.growth c) 1) (hspare c n hr)
  obtain ⟨h₂, hacquire, hcalls'⟩ := exists_acquire (hcounted.mono hcalls.counts) hspare' .cell
  have hacquired' := Acquired.ends_acquire hacquired (hleads v hstored) .cell
  rw [hacquire] at hacquired'
  have hvalue' : h₂.value? b i = some v := by rw [hcalls'.value?_eq, hcalls.value?_eq, hv]
  have hstore : Heap.store b i v h₁ = (.ok (), h₂.settle [.disown .cell v]) := by
    refine (bind_of_ok hacquire).trans ?_
    simp only [update_apply, replace, hvalue', setValue_eq_self hvalue', disown]
  have hdisowned : h.Acquired [v] (h₂.settle [.disown .cell v]) := by
    rw [settle_cons, List.append_nil]
    exact (Acquired.log hacquired' _).drop_head
  exact ⟨h₁, h₂, hread, hstore, hvalue', ⟨_, hacquired.ahead⟩,
    fun us g => Acquired.ahead_of_disown hacquired', fun us g => hdisowned.ahead_of_dropsOf,
    hdisowned.drop_head.ahead.restored⟩

/-! ## What is left of a heap -/

omit [Host V] in
/-- What a heap has was there before and is the same: its blocks with what they hold, and the
payloads that somebody shares with their parts. -/
structure Leaves (h g : Heap V) : Prop where
  /-- the blocks -/
  block : ∀ b block, g.block? b = some block → h.contents? b = some block.contents
  /-- the payloads -/
  payload : ∀ (p : PayloadId) (payload : Payload V), g.payloads[p]? = some payload →
    0 < payload.shares → ∃ before : Payload V,
      h.payloads[p]? = some before ∧ 0 < before.shares ∧ payload.parts = before.parts

omit [Host V] in
theorem Leaves.refl (h : Heap V) : h.Leaves h where
  block _ _ hb := contents?_eq hb
  payload _ payload hp hpos := ⟨payload, hp, hpos, rfl⟩

omit [Host V] in
theorem Leaves.trans {k : Heap V} (hg : h.Leaves g) (hk : g.Leaves k) : h.Leaves k where
  block b block hb := by
    obtain ⟨before, hbefore, hcontents⟩ := Option.map_eq_some_iff.mp (hk.block b block hb)
    rw [hg.block b before hbefore, hcontents]
  payload p payload hp hpos := by
    obtain ⟨between, hbetween, hpos', hparts⟩ := hk.payload p payload hp hpos
    obtain ⟨before, hbefore, hpos'', hparts'⟩ := hg.payload p between hbetween hpos'
    exact ⟨before, hbefore, hpos'', hparts.trans hparts'⟩

/-- A task leaves alone what it does not destroy. -/
theorem leaves_carryOut (t : Task V) (h : Heap V) : h.Leaves (t.carryOut h).2 where
  block b block hb := by
    obtain ⟨before, hbefore, hcontents⟩ := t.contents_carryOut h hb
    rw [contents?_eq hbefore, hcontents]
  payload p payload hp hpos := by
    cases t with
    | disown holder v => exact ⟨payload, hp, hpos, rfl⟩
    | drop r =>
      cases r with
      | block b n =>
        have hexpect : (h.expect b n).payloads = h.payloads := by
          rw [expect]
          split <;> rfl
        have hsame : ((Task.drop (.block b n)).carryOut h).2.payloads = h.payloads := by
          simp only [Task.carryOut]
          split
          · exact hexpect
          · split <;> exact hexpect
        rw [hsame] at hp
        exact ⟨payload, hp, hpos, rfl⟩
      | payload q =>
        simp only [Task.carryOut] at hp
        split at hp
        · exact ⟨payload, hp, hpos, rfl⟩
        · rename_i before hq
          split at hp
          · exact ⟨payload, hp, hpos, rfl⟩
          · rename_i hone
            by_cases hqp : q = p
            · subst hqp
              rw [clearPayload, List.getElem?_set_self (List.getElem?_eq_some_iff.mp hq).1] at hp
              cases hp
              exact absurd hpos (Nat.lt_irrefl 0)
            · rw [clearPayload, List.getElem?_set_ne hqp] at hp
              exact ⟨payload, hp, hpos, rfl⟩
          · rename_i k hmore
            simp only [setShares] at hp
            by_cases hqp : q = p
            · subst hqp
              rw [List.getElem?_modify_eq, hq] at hp
              cases hp
              exact ⟨before, hq, hmore ▸ Nat.succ_pos _, rfl⟩
            · rw [List.getElem?_modify_ne _ _ hqp] at hp
              exact ⟨payload, hp, hpos, rfl⟩

/-- So do many tasks. -/
theorem leaves_of_steps {x y : List (Task V) × Heap V} (hsteps : ReflTransGen Task.Step x y) :
    x.2.Leaves y.2 := by
  induction hsteps with
  | refl => exact .refl _
  | tail _ hstep ih =>
    cases hstep with
    | next => exact ih.trans (leaves_carryOut _ _)

/-! ## What a value leads to -/

/-- From the first reference the second can be reached, through the values in the cells of blocks
and through the parts of payloads. -/
inductive Reaches (h : Heap V) (r : Ref) : Ref → Prop where
  /-- without a step -/
  | self : Reaches h r r
  /-- through a value in a block -/
  | cell {b n : Nat} {block : Block V} {v : V} {r' : Ref} (hr : Reaches h r (.block b n))
      (hb : h.block? b = some block) (hv : v ∈ block.stored) (hr' : Host.ref v = some r') :
      Reaches h r r'
  /-- through a part of a payload -/
  | part {p : PayloadId} {payload : Payload V} {v : V} {r' : Ref} (hr : Reaches h r (.payload p))
      (hp : h.payloads[p]? = some payload) (hv : v ∈ payload.parts) (hr' : Host.ref v = some r') :
      Reaches h r r'

omit [Host V] in
/-- What the reference leads to is there, and holds what it held before. -/
def Retains (h g : Heap V) (r : Ref) : Prop :=
  g.Leads r ∧ match r with
    | .block b _ => g.contents? b = h.contents? b
    | .payload p => g.payloads[p]?.map Payload.parts = h.payloads[p]?.map Payload.parts

omit [Host V] in
/-- What leads somewhere in what is left of a heap has been retained. -/
theorem Leaves.retains (hg : h.Leaves g) {r : Ref} (hr : g.Leads r) : h.Retains g r := by
  refine ⟨hr, ?_⟩
  cases r with
  | block b n =>
    obtain ⟨block, hb, -⟩ := hr
    exact (contents?_eq hb).trans (hg.block b block hb).symm
  | payload p =>
    obtain ⟨payload, hp, hpos⟩ := hr
    obtain ⟨before, hbefore, -, hparts⟩ := hg.payload p payload hp hpos
    show g.payloads[p]?.map _ = h.payloads[p]?.map _
    rw [hp, hbefore, Option.map_some, Option.map_some, hparts]

end Heap

section

variable [Faced V]

/-- Whatever can be reached from a reference that is owned in what is left has been retained. -/
theorem Ledger.Sound.retains {h : Heap V} {l : Ledger V} (hl : l.Sound) (hleaves : h.Leaves l.heap)
    {r r' : Ref} (hr : r ∈ l.refs) (hreaches : h.Reaches r r') : h.Retains l.heap r' := by
  suffices hmem : r' ∈ l.refs from hleaves.retains (hl.leads hmem)
  induction hreaches with
  | self => exact hr
  | @cell b n block v r' _ hb hv hr' ih =>
    -- the block has been retained, and so the heap holds the value still
    obtain ⟨⟨block', hb', -⟩, hcontents⟩ := hleaves.retains (hl.leads ih)
    have hsame : l.heap.contents? b = h.contents? b := hcontents
    rw [Heap.contents?_eq hb', Heap.contents?_eq hb, Option.some_inj] at hsame
    have hheld : v ∈ l.heap.held := by
      refine Heap.mem_held.mpr (.inl ⟨b, block', hb', ?_⟩)
      rwa [Block.stored, hsame]
    exact Ledger.mem_refs_of_has (.inl hheld) hr'
  | @part p payload v r' _ hp hv hr' ih =>
    obtain ⟨⟨payload', hp', -⟩, hparts⟩ := hleaves.retains (hl.leads ih)
    have hsame : l.heap.payloads[p]?.map Payload.parts = h.payloads[p]?.map Payload.parts := hparts
    rw [hp', hp, Option.map_some, Option.map_some, Option.some_inj] at hsame
    have hheld : v ∈ l.heap.held := Heap.mem_held.mpr (.inr ⟨p, payload', hp', hsame ▸ hv⟩)
    exact Ledger.mem_refs_of_has (.inl hheld) hr'

end

/-! ## Writing a cell -/

namespace Heap

/-- A value has been acquired for a cell. It is put there before the cell gives back what it held,
and from then on the cell holds it, whatever the cascade comes to. What can be reached from the
value in the cell is retained. -/
structure Installs (h h₁ : Heap V) (b : BlockId) (i : Nat) (v : V) : Prop where
  /-- the value is put into the cell, and then the cell gives back what it held -/
  stored : Heap.store b i v h =
    (.ok (), (h₁.setValue b i (some v)).settle ((h.value? b i).toList.map (.disown .cell)))
  /-- meanwhile the cell holds the value -/
  holds : ∀ us g, ReflTransGen Task.Step
      ((h.value? b i).toList.map (.disown .cell), h₁.setValue b i (some v)) (us, g) →
    g.value? b i = some v
  /-- and what the value leads to is there -/
  retains : ∀ us g, ReflTransGen Task.Step
      ((h.value? b i).toList.map (.disown .cell), h₁.setValue b i (some v)) (us, g) →
    ∀ r r', Host.ref v = some r → (h₁.setValue b i (some v)).Reaches r r' →
      (h₁.setValue b i (some v)).Retains g r'

end Heap

/-- Carrying out tasks one by one gives back references. -/
theorem Yields.of_steps {x y : List (Task V) × Heap V} (hsteps : ReflTransGen Task.Step x y)
    (os : Multiset (Owner V)) (w : Written V) :
    Yields ⟨x.2, Owner.ofTasks x.1 + os, w⟩ ⟨y.2, Owner.ofTasks y.1 + os, w⟩ := by
  induction hsteps with
  | refl => exact .refl
  | tail _ hstep ih =>
    cases hstep with
    | next => exact ih.tail (.first _ _ _ os w)

section

variable [Faced V] {l : Ledger V} {h : Heap V} {os : Multiset (Owner V)} {w : Written V}

/-- Once the value is in the cell of an owned block, it stays there with all that it leads to. -/
theorem Stage.installs {v : V} {h₁ : Heap V} (hrun : Heap.acquire .cell v h = (.ok (), h₁))
    (st₁ : Stage l h₁ ({.value .cell v} + os) w) {b n i : Nat} (hb : .block b n ∈ Owner.refs os)
    (hi : i < n) : h.Installs h₁ b i v := by
  have hb₁ : .block b n ∈ Ledger.refs ⟨h₁, {.value .cell v} + os, w⟩ :=
    Ledger.mem_refs_of_owned (Owner.mem_refs_add _ hb)
  obtain ⟨block, hblock, rfl⟩ := st₁.exists_block hb₁
  have hcontents : h₁.contents? = h.contents? := by
    have hsame := Heap.contents?_acquire .cell v h
    rwa [hrun] at hsame
  have hvalue : h₁.value? b i = h.value? b i :=
    Heap.value?_eq_of_contents? (congrFun hcontents b) i
  have st₂ := st₁.step (.write hblock hi)
  rw [hvalue, ← Owner.ofTasks_disown] at st₂
  -- whatever is left at some point, the block is owned from outside and so it is there
  have hnow {us : List (Task V)} {g : Heap V} (hsteps : ReflTransGen Task.Step
      ((h.value? b i).toList.map (.disown .cell), h₁.setValue b i (some v)) (us, g)) :
      Ledger.Sound ⟨g, Owner.ofTasks us + os, w.put b i (some v)⟩ ∧ g.value? b i = some v := by
    have hsound := (st₂.yields (.of_steps hsteps os _)).sound_now
    refine ⟨hsound, ?_⟩
    have hmem : .block b block.size ∈ Ledger.refs ⟨g, Owner.ofTasks us + os, w.put b i (some v)⟩ :=
      Ledger.mem_refs_of_owned (Owner.mem_refs_add _ hb)
    have hretains := (Heap.leaves_of_steps hsteps).retains (hsound.leads hmem)
    rw [Heap.value?_eq_of_contents? hretains.2, Heap.value?_setValue hblock hi, if_pos ⟨rfl, rfl⟩]
  refine ⟨?_, fun us g hsteps => (hnow hsteps).2, fun us g hsteps r r' hr hreaches => ?_⟩
  · refine (bind_of_ok hrun).trans ?_
    rw [update_apply, Heap.replace_eq hblock hi, hvalue]
  · obtain ⟨hsound, hholds⟩ := hnow hsteps
    obtain ⟨last, hlast, hstored⟩ := Option.bind_eq_some_iff.mp hholds
    have hheld : v ∈ g.held :=
      Heap.mem_held.mpr (.inl ⟨b, last, hlast, Block.mem_stored_of_value? hstored⟩)
    exact hsound.retains (Heap.leaves_of_steps hsteps)
      (Ledger.mem_refs_of_has (.inl hheld) hr) hreaches

/-- A write either does nothing, as the value points to a block without a count or with the highest
one, or it has put the value into the cell before anything is given back. -/
theorem Stage.ends_installs (st : Stage l h os w) {b n i : Nat} (hb : .block b n ∈ Owner.refs os)
    (hi : i < n) {v : V} (hv : Sourced os v) :
    Ends (Heap.acquire .cell v h) (fun _ h₁ => h.Installs h₁ b i v)
      fun f h₁ => Heap.store b i v h = (.error f, h₁) ∧ h₁ = h := by
  have hstage := st.ends_acquire hv .cell
  have hleads : h.LeadsFrom v := fun r hr =>
    st.sound_now.leads ((hv.grounded st.sound_now).1 r hr)
  have hsame := (Heap.Acquired.nil h).ends_acquire hleads .cell
  rcases hrun : Heap.acquire .cell v h with ⟨f | u, h₁⟩
  · rw [hrun] at hsame
    exact ⟨bind_of_error hrun, hsame.1⟩
  · rw [hrun] at hstage
    exact Stage.installs hrun hstage hb hi

/-- Whatever cell an owner can write, a write to it has put the value into the cell before anything
is given back, or has done nothing. -/
def Ledger.InstallsFirst (l : Ledger V) : Prop :=
  ∀ b n i v, .block b n ∈ Owner.refs l.owners → i < n → Sourced l.owners v →
    Ends (Heap.acquire .cell v l.heap) (fun _ h₁ => l.heap.Installs h₁ b i v)
      fun f h₁ => Heap.store b i v l.heap = (.error f, h₁) ∧ h₁ = l.heap

end

/-! ## Sessions -/

/-- In a session that a steady run reaches, storing what was read from a cell, through any pointer
to its block, and then dropping it leaves everything as it was, and no block goes on the way,
provided that there can be two more owners of what the value points to. In a session that a careful
run reaches, and all the way through a command there, a cell that is written holds the new value
before the old one is given back, and goes on to hold it. What the new value leads to is not
destroyed. -/
theorem Reached.writes_back {s t : Session Value}
    (hs : Reached Session.stepValue (fun c _ => c.Steady) s)
    (ht : Reached Session.stepValue ValueCommand.Careful t) :
    (∀ b i v, s.heap.value? b i = some v → s.heap.SpareFor 2 v →
      s.heap.WritesBack (Heap.read b i) (Heap.store b i v) b i v) ∧
    (∀ (p q : Pointer) b n i v, s.Names p → s.Names q → p.same q = true → p = .cells b n → i < n →
      s.heap.value? b i = some v → s.heap.SpareFor 2 v →
      s.heap.WritesBack (p.getAt i) (q.setAt i v) b i v ∧
        (n = 1 → s.heap.WritesBack p.get (fun h => ((q.set v h).1.2, (q.set v h).2)) b i v ∧
          ∀ h, (q.set v h).1.1 = q)) ∧
    (∀ c : ValueCommand, c.Steady → c.Careful t →
      t.Throughout Ledger.InstallsFirst (t.stepValue c).2) ∧
    (∀ b n i (v : Value), i < n → (Pointer.cells b n).setAt i v = Heap.store b i v) ∧
    (∀ (p : Pointer) b (v : Value) h h', p.upgrade h = (.ok (.cells b 1), h') →
      p.set v h = ((.cells b 1, (Heap.store b 0 v h').1), (Heap.store b 0 v h').2)) := by
  obtain ⟨-, w, hw, he, -⟩ := hs.exact
  have hback (b i v) (hv : s.heap.value? b i = some v) (hspare : s.heap.SpareFor 2 v) :
      s.heap.WritesBack (Heap.read b i) (Heap.store b i v) b i v :=
    Heap.writesBack (he.intact hw.sound) hv hspare
  refine ⟨hback, fun p q b n i v hp hq hsame heq hi hv hspare => ?_, fun c hsteady hc => ?_,
    fun b n i v hi => Pointer.setAt_eq hi v, fun p b v h h' hup => Pointer.set_eq hup v⟩
  · -- another pointer to the block is the same pointer
    obtain ⟨rfl, -⟩ | ⟨b', n', hp', rfl⟩ := ((hw.shows he).same p q hp hq).mp hsame
    · cases heq
    obtain rfl : p = .cells b' n' := hp'
    cases heq
    refine ⟨?_, ?_⟩
    · rw [Pointer.getAt_eq hi, Pointer.setAt_eq hi]
      exact hback b i v hv hspare
    · rintro rfl
      obtain rfl := Nat.lt_one_iff.mp hi
      have hset (h : Heap Value) : (Pointer.cells b 1).set v h =
          ((.cells b 1, (Heap.store b 0 v h).1), (Heap.store b 0 v h).2) := Pointer.set_eq rfl v
      simp only [hset, Pointer.get_eq]
      exact ⟨hback b 0 v hv hspare, fun _ => trivial⟩
  · obtain ⟨u, hu⟩ := ht.inOrder
    obtain ⟨u', -, hmoves⟩ := hu.step hsteady hc.sensible
    refine .of_moves hmoves fun l hl b n i v hb hi hv => ?_
    have st : Stage (t.ledger u) l.heap l.owners l.written := ⟨hu.sound, hu.recorded, hl⟩
    exact st.ends_installs hb hi hv

/-- A cell holds the only reference to another block, which stays when it is written back. The cell
can also be written with a second reference to that block, although its own block has been damaged
by then. -/
theorem only_reference_is_written_back :
    let s := Session.runValue [.common (.allocate "x" (.int 7)),
      .common (.allocate "a" (.handle "x")), .common (.drop "x")] (.empty (.ofMemory 100))
    let t := s.runValue [.common (.get "a" (some "y")), .common (.rawOf "a" "u"),
      .common (.rawExpire "u")]
    s.heap.count 0 = 1 ∧ t.heap.count 1 = 0 ∧
      (∃ v, Host.ref v = some (.block 0 1) ∧ s.heap.WritesBack (Pointer.cells 1 1).get
        (fun h => (((Pointer.cells 1 1).set v h).1.2, ((Pointer.cells 1 1).set v h).2)) 1 0 v) ∧
      ∃ v h₁, t.values.lookup "y" = some v ∧ Heap.acquire .cell v t.heap = (.ok (), h₁) ∧
        t.heap.Installs h₁ 1 0 v := by
  intro s t
  have hs : Reached Session.stepValue (fun c _ => c.Steady) s :=
    (((Reached.start _).step trivial).step trivial).step trivial
  have ht : Reached Session.stepValue ValueCommand.Careful t :=
    (((((Reached.start _).step trivial).step trivial).step trivial).step trivial).step trivial
      |>.step trivial
  obtain ⟨-, hpointer, hmoves, -, -⟩ := hs.writes_back ht
  refine ⟨by decide +kernel, by decide +kernel, ?_, ?_⟩
  · have ha : s.Names (.cells 1 1) := .inl ⟨("a", .cells 1 1), by decide +kernel, rfl⟩
    have href : (s.heap.value? 1 0).bind Host.ref = some (.block 0 1) := by decide +kernel
    obtain ⟨v, hv, hr⟩ := Option.bind_eq_some_iff.mp href
    have hspare : s.heap.SpareFor 2 v := by
      intro b n hb
      cases hr.symm.trans hb
      decide +kernel
    have hback := hpointer _ _ 1 1 0 v ha ha (by decide) rfl Nat.one_pos hv hspare
    exact ⟨v, hr, (hback.2 rfl).1⟩
  · obtain ⟨w, -, -, -, hinstalls⟩ := hmoves (.common .stats) trivial trivial
    obtain ⟨v, hv⟩ : ∃ v, t.values.lookup "y" = some v :=
      Option.isSome_iff_exists.mp (by decide +kernel)
    have hrun : (t.values.lookup "y").all
        (fun v => (Heap.acquire .cell v t.heap).1.isOk) = true := by
      decide +kernel
    rw [hv] at hrun
    have ha : t.handles.lookup "a" = some (.cells 1 1) := by decide +kernel
    -- from here on it does not matter how the session was reached
    clear_value t
    have hcell : .block 1 1 ∈ Owner.refs t.owners :=
      Registers.keeps_handle (le_refl _) ha 1 1 rfl
    have hfirst : Ledger.InstallsFirst ⟨t.heap, t.owners, w⟩ := hinstalls _ .refl
    have hends := hfirst 1 1 0 v hcell Nat.one_pos
      (.inl ⟨.caller, Registers.mem_variable (le_refl _) hv⟩)
    rcases hacquire : Heap.acquire .cell v t.heap with ⟨f | u, h₁⟩
    · rw [Option.all_some, hacquire] at hrun
      cases hrun
    · rw [hacquire] at hends
      exact ⟨v, h₁, hv, hacquire, hends⟩

end CountedCells

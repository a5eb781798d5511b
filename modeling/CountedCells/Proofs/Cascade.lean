import CountedCells.Proofs.Stage

/-!
# Cascades: the order in which things are given back

`Heap.settle` works through a list of pending tasks. Here the same is told the way it is meant: a
task is carried out, then everything that it leads to, and only then the next one (`Cascade`). What
one task does by itself is listed once, in `Task.Does`. A block goes in one piece, with the
statistics and the report, and what leads on from there are its values in the order of the cells.

With exact counts every run of `Heap.settle` is such a cascade (`Heap.cascade_settle`). From this it
is read off that no block is destroyed twice, that the statistics go down block by block and are
right whenever a value is given back, and what happens between the destruction of a block and the
last of its values (`Orderly`).
-/

namespace CountedCells

variable {V : Type}

/-! ## Blocks that go -/

namespace Heap

/-- What the cells of a block hold, as long as it is there. -/
def contents? (h : Heap V) (b : BlockId) : Option (List (Option V)) :=
  (h.block? b).map Block.contents

theorem contents?_eq {h : Heap V} {b : BlockId} {block : Block V} (hb : h.block? b = some block) :
    h.contents? b = some block.contents := by
  rw [contents?, hb]
  rfl

theorem contents?_eq_none_iff {h : Heap V} {b : BlockId} :
    h.contents? b = none ↔ h.block? b = none := Option.map_eq_none_iff

/-- The number of cells is the number of contents. -/
theorem sizeAt_eq_of_contents? {h h' : Heap V} {b : BlockId}
    (hb : h'.contents? b = h.contents? b) : h'.sizeAt b = h.sizeAt b := by
  have hsize : ∀ g : Heap V, g.sizeAt b = ((g.contents? b).map List.length).getD 0 := by
    intro g
    rw [sizeAt, contents?, Option.map_map]
    congr 2
    funext block
    exact block.length_contents.symm
  rw [hsize, hsize, hb]

theorem contents?_setCount (h : Heap V) (b : BlockId) (n : Nat) :
    (h.setCount b n).contents? = h.contents? := by
  funext c
  rw [contents?, block?_setCount, contents?]
  split
  · rw [Option.map_map]
    rfl
  · rfl

theorem contents?_destroy (h : Heap V) (b : BlockId) (n : Nat) (c : BlockId) :
    (h.destroy b n).contents? c = if c = b then none else h.contents? c := by
  rw [contents?, block?_destroy]
  split <;> rfl

/-- From one heap to another exactly these blocks go, and the others keep their contents. -/
structure Loses (h : Heap V) (bs : List BlockId) (h' : Heap V) : Prop where
  /-- no block goes twice -/
  once : bs.Nodup
  /-- what goes was there -/
  there : ∀ b ∈ bs, h.contents? b ≠ none
  /-- what goes is gone, and the rest is as it was -/
  after : ∀ b, h'.contents? b = if b ∈ bs then none else h.contents? b

namespace Loses

variable {h h₁ h₂ : Heap V} {bs bs' : List BlockId}

theorem of_same (hsame : h₁.contents? = h.contents?) : h.Loses [] h₁ where
  once := List.nodup_nil
  there := List.forall_mem_nil _
  after b := by rw [hsame, if_neg List.not_mem_nil]

theorem trans (hl : h.Loses bs h₁) (hl' : h₁.Loses bs' h₂) : h.Loses (bs ++ bs') h₂ where
  once := by
    refine List.nodup_append.mpr ⟨hl.once, hl'.once, ?_⟩
    rintro b hb c hc rfl
    -- what has gone is not there to go again
    apply hl'.there b hc
    rw [hl.after, if_pos hb]
  there b hb := by
    rcases List.mem_append.mp hb with hb | hb
    · exact hl.there b hb
    · intro hnone
      apply hl'.there b hb
      rw [hl.after, hnone, ite_self]
  after b := by
    rw [hl'.after, hl.after]
    by_cases hb : b ∈ bs
    · simp [hb]
    · simp [hb]

/-- What is there in the end held the same before. -/
theorem contents?_eq (hl : h.Loses bs h₁) {b : BlockId} (hb : h₁.contents? b ≠ none) :
    h.contents? b = h₁.contents? b := by
  rw [hl.after] at hb ⊢
  by_cases hmem : b ∈ bs
  · rw [if_pos hmem] at hb
    exact absurd rfl hb
  · rw [if_neg hmem]

/-- What goes later has its number of cells already. -/
theorem sizes (hl : h.Loses bs h₁) (hl' : h₁.Loses bs' h₂) :
    (bs'.map fun b => (h₁.sizeAt b, b)) = bs'.map fun b => (h.sizeAt b, b) := by
  refine List.map_congr_left fun b hb => ?_
  rw [sizeAt_eq_of_contents? (hl.contents?_eq (hl'.there b hb))]

theorem mem_iff (hl : h.Loses bs h₁) (b : BlockId) :
    b ∈ bs ↔ h.block? b ≠ none ∧ h₁.block? b = none := by
  rw [← contents?_eq_none_iff, Ne, ← contents?_eq_none_iff, hl.after]
  constructor
  · intro hb
    exact ⟨hl.there b hb, if_pos hb⟩
  · rintro ⟨hthere, hgone⟩
    by_contra hb
    rw [if_neg hb] at hgone
    exact hthere hgone

end Loses
end Heap

/-! ## What events tell -/

/-- The block that an event reports destroyed, with its number of cells. -/
def Event.destroyed? : Event V → Option (Nat × BlockId)
  | .destroyed n b => some (n, b)
  | _ => none

/-- The blocks that are reported destroyed, in order. -/
def Event.losses (es : List (Event V)) : List (Nat × BlockId) := es.filterMap Event.destroyed?

@[simp] theorem Event.losses_append (es es' : List (Event V)) :
    Event.losses (es ++ es') = Event.losses es ++ Event.losses es' := List.filterMap_append

/-- The statistics went down by as much as was reported destroyed. -/
structure Stats.Lowered (s : Stats) (es : List (Event V)) (s' : Stats) : Prop where
  /-- by the cells of the blocks -/
  cells : s'.liveCells + ((Event.losses es).map Prod.fst).sum = s.liveCells
  /-- by the number of blocks -/
  blocks : s'.liveBlocks + (Event.losses es).length = s.liveBlocks

theorem Stats.Lowered.trans {s s₁ s₂ : Stats} {es es' : List (Event V)} (hs : s.Lowered es s₁)
    (hs' : s₁.Lowered es' s₂) : s.Lowered (es ++ es') s₂ := by
  constructor
  · rw [Event.losses_append, List.map_append, List.sum_append, ← hs.cells, ← hs'.cells]
    omega
  · rw [Event.losses_append, List.length_append, ← hs.blocks, ← hs'.blocks]
    omega

/-- Whenever a value is reported as given back, the statistics that are told with it are what is
left then. -/
def Stats.Told (s : Stats) (es : List (Event V)) : Prop :=
  ∀ before holder v st after, es = before ++ .disowned holder v st :: after → s.Lowered before st

theorem Stats.Told.trans {s s₁ : Stats} {es es' : List (Event V)} (ht : s.Told es)
    (hs : s.Lowered es s₁) (ht' : s₁.Told es') : s.Told (es ++ es') := by
  intro before holder v st after heq
  rcases List.append_eq_append_iff.mp heq with ⟨cs, rfl, hcs⟩ | ⟨cs, rfl, hcs⟩
  · exact hs.trans (ht' cs holder v st after hcs)
  · -- the event is the first of the second part, or it is in the first part
    cases cs with
    | nil =>
      have hfirst := hs.trans (ht' [] holder v st after hcs.symm)
      rwa [List.append_nil, List.append_nil] at hfirst
    | cons e cs =>
      obtain ⟨rfl, rfl⟩ := List.cons_eq_cons.mp hcs
      exact ht before holder v st cs rfl

/-! ## One task -/

variable [Host V]

/-- What a task does by itself: what is reported, which block goes, what it leads to, and the heap
after it. -/
inductive Task.Does : Task V → Heap V → List (Event V) → List BlockId → List (Task V) → Heap V →
    Prop where
  /-- a value is reported, with how much is live then, and goes on to give back what it owns -/
  | disown {h : Heap V} {holder : Holder} {v : V} :
      Does (.disown holder v) h [.disowned holder v h.stats] [] (dropsOf v)
        (h.log (.disowned holder v h.stats))
  /-- the last reference to a block goes: the block is gone, and so are its cells from the
  statistics, and this is reported; then its values are to be given back in order -/
  | last {h : Heap V} {b : BlockId} {block : Block V} (hb : h.block? b = some block)
      (hone : block.count = 1) :
      Does (.drop (.block b block.size)) h [.destroyed block.size b] [b]
        (block.stored.map (.disown .cell)) (h.destroy b block.size)
  /-- another reference to a block goes -/
  | other {h : Heap V} {b : BlockId} {block : Block V} {c : Nat} (hb : h.block? b = some block)
      (hmore : block.count = c + 2) :
      Does (.drop (.block b block.size)) h [] [] [] (h.setCount b (c + 1))
  /-- the last share of a payload goes, and its parts give back what they own -/
  | lastShare {h : Heap V} {p : PayloadId} {payload : Payload V}
      (hp : h.payloads[p]? = some payload) (hone : payload.shares = 1) :
      Does (.drop (.payload p)) h [] [] (payload.parts.flatMap dropsOf) (h.clearPayload p)
  /-- another share of a payload goes -/
  | otherShare {h : Heap V} {p : PayloadId} {payload : Payload V} {k : Nat}
      (hp : h.payloads[p]? = some payload) (hmore : payload.shares = k + 2) :
      Does (.drop (.payload p)) h [] [] [] (h.setShares p (k + 1))

namespace Task.Does

variable {t : Task V} {h h' : Heap V} {es : List (Event V)} {bs : List BlockId} {ts : List (Task V)}

theorem trace (hd : t.Does h es bs ts h') : h'.trace = es.reverse ++ h.trace := by
  cases hd <;> rfl

theorem loses (hd : t.Does h es bs ts h') : h.Loses bs h' := by
  cases hd with
  | disown => exact .of_same rfl
  | @last _ b block hb hone =>
    refine ⟨List.nodup_singleton b, fun c hc => ?_, fun c => ?_⟩
    · rw [List.mem_singleton.mp hc, Heap.contents?_eq hb]
      exact Option.some_ne_none _
    · rw [Heap.contents?_destroy]
      simp only [List.mem_singleton]
  | other hb hmore => exact .of_same (Heap.contents?_setCount ..)
  | lastShare hp hone => exact .of_same rfl
  | otherShare hp hmore => exact .of_same rfl

theorem losses (hd : t.Does h es bs ts h') :
    Event.losses es = bs.map fun b => (h.sizeAt b, b) := by
  cases hd with
  | @last _ b block hb hone =>
    have hsize : h.sizeAt b = block.size := by
      rw [Heap.sizeAt, hb]
      rfl
    rw [List.map_singleton, hsize]
    rfl
  | _ => rfl

theorem accounted (hd : t.Does h es bs ts h') (ha : h.Accounted) : h'.Accounted := by
  cases hd with
  | disown => exact ha
  | last hb hone => exact ha.destroy hb
  | other hb hmore => exact Heap.kept_accounted.setCount (w := []) _ _ ha
  | lastShare hp hone => exact ha
  | otherShare hp hmore => exact ha

theorem lowered (hd : t.Does h es bs ts h') (ha : h.Accounted) : h.stats.Lowered es h'.stats := by
  cases hd with
  | last hb hone =>
    obtain ⟨hcells, hblocks⟩ := ha.covers hb
    exact ⟨Nat.sub_add_cancel hcells, Nat.sub_add_cancel hblocks⟩
  | _ => exact ⟨rfl, rfl⟩

theorem told (hd : t.Does h es bs ts h') : h.stats.Told es := by
  intro before holder v st after heq
  have hsingle : ∀ e, [e] = before ++ .disowned holder v st :: after →
      before = [] ∧ .disowned holder v st = e := by
    intro e heq
    rcases List.singleton_eq_append_iff.mp heq with ⟨hbefore, hrest⟩ | ⟨-, hrest⟩
    · exact ⟨hbefore, (List.cons_eq_cons.mp hrest).1⟩
    · cases hrest
  cases hd with
  | disown =>
    obtain ⟨rfl, heq⟩ := hsingle _ heq
    cases heq
    exact ⟨rfl, rfl⟩
  | last hb hone =>
    obtain ⟨-, heq⟩ := hsingle _ heq
    cases heq
  | _ => simp at heq

end Task.Does

/-- With exact counts there is always something to do. -/
theorem Task.does_carryOut [Faced V] {h : Heap V} {os : Multiset (Owner V)} {w : Written V}
    (t : Task V) (hl : Ledger.Sound ⟨h, {Owner.ofTask t} + os, w⟩)
    (he : Ledger.Exact ⟨h, {Owner.ofTask t} + os, w⟩) :
    ∃ es bs, t.Does h es bs (t.carryOut h).1 (t.carryOut h).2 := by
  cases t with
  | disown holder v => exact ⟨_, _, .disown⟩
  | drop r =>
    cases r with
    | block b n =>
      obtain ⟨c, hc⟩ := hl.anchored b n (Ledger.mem_refs_head _)
      obtain ⟨block, hb, -, rfl⟩ := Heap.exists_block_of_shape? hc
      have hpos : 0 < block.count := (he b _ _ (Heap.shape?_eq hb)).2
      simp only [carryOut, Heap.expect_eq hb, hb]
      rcases hcount : block.count with - | - | c
      · omega
      · rw [Block.values_size]
        exact ⟨_, _, .last hb hcount⟩
      · exact ⟨_, _, .other hb hcount⟩
    | payload p =>
      have hmem : .payload p ∈ Ledger.refs ⟨h, {.ref (.payload p)} + os, w⟩ :=
        Ledger.mem_refs_head _
      obtain ⟨payload, hp⟩ : ∃ payload, h.payloads[p]? = some payload :=
        ⟨_, List.getElem?_eq_getElem (hl.known p hmem)⟩
      have hpos : 0 < payload.shares := by
        rw [hl.shared p payload hp]
        exact Multiset.count_pos.mpr hmem
      simp only [carryOut, hp]
      rcases hshares : payload.shares with - | - | k
      · omega
      · exact ⟨_, _, .lastShare hp hshares⟩
      · exact ⟨_, _, .otherShare hp hshares⟩

/-! ## Many tasks -/

/-- From a heap, tasks are carried out in order, each with everything that it leads to before the
next one: what is reported and which blocks go, both in order, and the heap in the end. -/
inductive Cascade : Heap V → List (Task V) → List (Event V) → List BlockId → Heap V → Prop where
  /-- nothing is left to do -/
  | done {h : Heap V} : Cascade h [] [] [] h
  /-- a task is carried out, then what it leads to, then the other tasks -/
  | task {h h₁ h₂ h₃ : Heap V} {t : Task V} {below ts : List (Task V)}
      {es es₁ es₂ : List (Event V)} {bs bs₁ bs₂ : List BlockId} (now : t.Does h es bs below h₁)
      (inside : Cascade h₁ below es₁ bs₁ h₂) (next : Cascade h₂ ts es₂ bs₂ h₃) :
      Cascade h (t :: ts) (es ++ es₁ ++ es₂) (bs ++ bs₁ ++ bs₂) h₃

namespace Cascade

variable {h h' : Heap V} {ts us : List (Task V)} {es : List (Event V)} {bs : List BlockId}

/-- Tasks one part of which comes first. -/
theorem of_append (hc : Cascade h (ts ++ us) es bs h') :
    ∃ es₁ bs₁ h₁ es₂ bs₂, Cascade h ts es₁ bs₁ h₁ ∧ Cascade h₁ us es₂ bs₂ h' ∧
      es = es₁ ++ es₂ ∧ bs = bs₁ ++ bs₂ := by
  induction ts generalizing h es bs with
  | nil => exact ⟨[], [], h, es, bs, .done, hc, rfl, rfl⟩
  | cons t ts ih =>
    cases hc with
    | task now inside next =>
      obtain ⟨es₁, bs₁, h₁, es₂, bs₂, hfirst, hsecond, rfl, rfl⟩ := ih next
      refine ⟨_, _, h₁, es₂, bs₂, .task now inside hfirst, hsecond, ?_, ?_⟩
      · rw [List.append_assoc _ es₁]
      · rw [List.append_assoc _ bs₁]

theorem trace (hc : Cascade h ts es bs h') : h'.trace = es.reverse ++ h.trace := by
  induction hc with
  | done => rfl
  | task now inside next ihInside ihNext =>
    rw [ihNext, ihInside, now.trace, List.reverse_append, List.reverse_append, List.append_assoc,
      List.append_assoc]

theorem loses (hc : Cascade h ts es bs h') : h.Loses bs h' := by
  induction hc with
  | done => exact .of_same rfl
  | task now inside next ihInside ihNext => exact (now.loses.trans ihInside).trans ihNext

/-- The reports name the blocks that go, with their numbers of cells. -/
theorem losses (hc : Cascade h ts es bs h') :
    Event.losses es = bs.map fun b => (h.sizeAt b, b) := by
  induction hc with
  | done => rfl
  | task now inside next ihInside ihNext =>
    rw [Event.losses_append, Event.losses_append, now.losses, ihInside, ihNext, List.map_append,
      List.map_append, now.loses.sizes inside.loses,
      (now.loses.trans inside.loses).sizes next.loses]

theorem accounted (hc : Cascade h ts es bs h') (ha : h.Accounted) : h'.Accounted := by
  induction hc with
  | done => exact ha
  | task now inside next ihInside ihNext => exact ihNext (ihInside (now.accounted ha))

theorem lowered (hc : Cascade h ts es bs h') (ha : h.Accounted) : h.stats.Lowered es h'.stats := by
  induction hc with
  | done => exact ⟨rfl, rfl⟩
  | task now inside next ihInside ihNext =>
    have hmid := now.accounted ha
    exact ((now.lowered ha).trans (ihInside hmid)).trans (ihNext (inside.accounted hmid))

theorem told (hc : Cascade h ts es bs h') (ha : h.Accounted) : h.stats.Told es := by
  induction hc with
  | done =>
    intro before holder v st after heq
    simp at heq
  | task now inside next ihInside ihNext =>
    have hmid := now.accounted ha
    have hlowered := (now.lowered ha).trans (inside.lowered hmid)
    exact (now.told.trans (now.lowered ha) (ihInside hmid)).trans hlowered
      (ihNext (inside.accounted hmid))

/-- Values that are given back take turns: each is reported, and what follows is what it sets free,
up to the report of the next one. -/
theorem turns {holder : Holder} {vs : List V} (hc : Cascade h (vs.map (.disown holder)) es bs h') :
    ∃ turns : List (V × Stats × List (Event V)), turns.map Prod.fst = vs ∧
      es = turns.flatMap fun turn => .disowned holder turn.1 turn.2.1 :: turn.2.2 := by
  induction vs generalizing h es bs with
  | nil =>
    cases hc
    exact ⟨[], rfl, rfl⟩
  | cons v vs ih =>
    cases hc with
    | @task _ _ _ _ _ _ _ _ es₁ _ _ _ _ now inside next =>
      cases now
      obtain ⟨turns, rfl, rfl⟩ := ih next
      exact ⟨(v, h.stats, es₁) :: turns, rfl, rfl⟩

/-- In the course of events a block is destroyed: until then it is there and holds what it held in
the beginning, with its count down to the last reference, and what follows at once are its values,
in order. -/
def Destroys (h : Heap V) (es : List (Event V)) (b : BlockId) : Prop :=
  ∃ (g g' : Heap V) (block : Block V) (before inner after : List (Event V)) (bs : List BlockId),
    g.block? b = some block ∧ block.count = 1 ∧ h.contents? b = some block.contents ∧
      Cascade (g.destroy b block.size) (block.stored.map (.disown .cell)) inner bs g' ∧
      es = before ++ .destroyed block.size b :: (inner ++ after)

theorem destroys (hc : Cascade h ts es bs h') {b : BlockId} (hb : b ∈ bs) : Destroys h es b := by
  induction hc with
  | done => cases hb
  | @task h h₁ h₂ h₃ t below ts es es₁ es₂ bs bs₁ bs₂ now inside next ihInside ihNext =>
    rcases List.mem_append.mp hb with hb | hb
    · rcases List.mem_append.mp hb with hb | hb
      · cases now with
        | last hblock hone =>
          obtain rfl := List.mem_singleton.mp hb
          exact ⟨h, h₂, _, [], es₁, es₂, bs₁, hblock, hone, Heap.contents?_eq hblock, inside, rfl⟩
        | _ => cases hb
      · obtain ⟨g, g', block, before, inner, after, bs', hblock, hone, hcontents, hinner, rfl⟩ :=
          ihInside hb
        refine ⟨g, g', block, es ++ before, inner, after ++ es₂, bs', hblock, hone, ?_, hinner, ?_⟩
        · rw [now.loses.contents?_eq (hcontents ▸ Option.some_ne_none _), hcontents]
        · simp only [List.append_assoc, List.cons_append]
    · obtain ⟨g, g', block, before, inner, after, bs', hblock, hone, hcontents, hinner, rfl⟩ :=
        ihNext hb
      refine ⟨g, g', block, es ++ es₁ ++ before, inner, after, bs', hblock, hone, ?_, hinner, ?_⟩
      · have hl := now.loses.trans inside.loses
        rw [hl.contents?_eq (hcontents ▸ Option.some_ne_none _), hcontents]
      · simp only [List.append_assoc]

end Cascade

/-- With exact counts, pending tasks are carried out as a cascade. -/
theorem Heap.cascade_settle [Faced V] (ts : List (Task V)) {h : Heap V} {os : Multiset (Owner V)}
    {w : Written V} (hl : Ledger.Sound ⟨h, Owner.ofTasks ts + os, w⟩)
    (he : Ledger.Exact ⟨h, Owner.ofTasks ts + os, w⟩) :
    ∃ es bs, Cascade h ts es bs (h.settle ts) := by
  fun_induction Heap.settle ts h with
  | case1 h => exact ⟨[], [], .done⟩
  | case2 h t ts ih =>
    have hmove := (Yield.first h t ts os w).move
    obtain ⟨es', bs', hrest⟩ := ih (hmove.sound hl) (hmove.tally countRule_exactly hl he)
    rw [Owner.ofTasks_cons, add_assoc] at hl he
    obtain ⟨es, bs, hnow⟩ := t.does_carryOut hl he
    obtain ⟨es₁, bs₁, h₁, es₂, bs₂, hinside, hnext, -, -⟩ := hrest.of_append
    exact ⟨_, _, .task hnow hinside hnext⟩

end CountedCells

import CountedCells.Proofs.Cascade
import CountedCells.Proofs.Closing

/-!
# Confluence: the order of giving back does not matter

Two runs give back the same references of the same ledger, in any order, and leave the same owners.
Then they leave the same heap, apart from the trace (`Yields.confluent`).

What is destroyed is the same because neither run can keep what the other destroys. Take the first
thing that one run destroys and the other keeps, a block or the content of a payload. When the one
run destroys it, the reference that goes is the last; the other run has destroyed all that was
destroyed before, so nothing that it holds in the end refers to the thing either. But then it cannot
have kept it, since counts are exact (`Yields.within`).

What is left is the same then, and so are the counts, because they are the numbers of owners.
-/

namespace CountedCells

open Relation

variable {V : Type}

/-! ## What is in a heap -/

namespace Heap

/-- The heap as it is, whatever happened before. -/
def withoutTrace (h : Heap V) : Heap V := { h with trace := [] }

/-- What is in one heap is in the other as well: every block that is there, with what it holds, and
every payload that still has parts. -/
structure Within (g h : Heap V) : Prop where
  /-- the blocks -/
  block : ∀ b block, g.block? b = some block →
    ∃ other, h.block? b = some other ∧ block.contents = other.contents
  /-- the payloads -/
  parts : ∀ (p : PayloadId) (payload : Payload V), g.payloads[p]? = some payload →
    payload.parts = [] ∨
      ∃ other : Payload V, h.payloads[p]? = some other ∧ payload.parts = other.parts

theorem Within.trans {g h k : Heap V} (hgh : g.Within h) (hhk : h.Within k) : g.Within k where
  block b block hb := by
    obtain ⟨other, hother, hsame⟩ := hgh.block b block hb
    obtain ⟨last, hlast, hsame'⟩ := hhk.block b other hother
    exact ⟨last, hlast, hsame.trans hsame'⟩
  parts p payload hp := by
    rcases hgh.parts p payload hp with hnil | ⟨other, hother, hsame⟩
    · exact .inl hnil
    · rcases hhk.parts p other hother with hnil | ⟨last, hlast, hsame'⟩
      · exact .inl (hsame.trans hnil)
      · exact .inr ⟨last, hlast, hsame.trans hsame'⟩

/-- So are the values that are held. -/
theorem Within.mem_held {g h : Heap V} (hw : g.Within h) {v : V} (hv : v ∈ g.held) :
    v ∈ h.held := by
  rcases Heap.mem_held.mp hv with ⟨b, block, hb, hstored⟩ | ⟨p, payload, hp, hpart⟩
  · obtain ⟨other, hother, hsame⟩ := hw.block b block hb
    refine Heap.mem_held.mpr (.inl ⟨b, other, hother, ?_⟩)
    rwa [Block.stored, ← hsame]
  · rcases hw.parts p payload hp with hnil | ⟨other, hother, hsame⟩
    · rw [hnil] at hpart
      cases hpart
    · exact Heap.mem_held.mpr (.inr ⟨p, other, hother, hsame ▸ hpart⟩)

theorem blocks_eq_map (h : Heap V) : h.blocks = (List.range h.blocks.length).map h.block? := by
  apply List.ext_getElem?
  intro b
  rw [List.getElem?_map]
  by_cases hb : b < h.blocks.length
  · rw [List.getElem?_range hb, Option.map_some, block?, List.getElem?_eq_getElem hb]
    rfl
  · rw [List.getElem?_eq_none (Nat.le_of_not_lt hb), List.getElem?_eq_none]
    · rfl
    · rw [List.length_range]
      exact Nat.le_of_not_lt hb

variable {g h : Heap V}

theorem Within.contents?_eq (hgh : g.Within h) (hhg : h.Within g) : g.contents? = h.contents? := by
  funext b
  rcases hg : g.block? b with - | block
  · rcases hh : h.block? b with - | other
    · rw [contents?, contents?, hg, hh]
    · obtain ⟨block, hblock, -⟩ := hhg.block b other hh
      rw [hg] at hblock
      cases hblock
  · obtain ⟨other, hother, hsame⟩ := hgh.block b block hg
    rw [Heap.contents?_eq hg, Heap.contents?_eq hother, hsame]

theorem Within.parts_eq (hgh : g.Within h) (hhg : h.Within g)
    (hlength : g.payloads.length = h.payloads.length) :
    g.payloads.map Payload.parts = h.payloads.map Payload.parts := by
  apply List.ext_getElem
  · rw [List.length_map, List.length_map, hlength]
  · intro p hp hp'
    rw [List.getElem_map, List.getElem_map]
    rw [List.length_map] at hp hp'
    have hone := hgh.parts p _ (List.getElem?_eq_getElem hp)
    have hother := hhg.parts p _ (List.getElem?_eq_getElem hp')
    rcases hone with hnil | ⟨payload, hpayload, hsame⟩
    · rcases hother with hnil' | ⟨payload, hpayload, hsame⟩
      · rw [hnil, hnil']
      · rw [List.getElem?_eq_getElem hp, Option.some_inj] at hpayload
        rw [hsame, hpayload]
    · rw [List.getElem?_eq_getElem hp', Option.some_inj] at hpayload
      rw [hsame, hpayload]

/-- What a heap holds depends on the contents of its blocks and the parts of its payloads. -/
theorem held_congr (hlength : g.blocks.length = h.blocks.length)
    (hcontents : g.contents? = h.contents?)
    (hparts : g.payloads.map Payload.parts = h.payloads.map Payload.parts) : g.held = h.held := by
  have hblocks : ∀ k : Heap V, k.blocks.flatMap (fun o => o.elim [] Block.stored) =
      (List.range k.blocks.length).flatMap
        fun b => ((k.contents? b).elim [] fun vs => vs.flatMap Option.toList) := by
    intro k
    conv_lhs => rw [k.blocks_eq_map]
    rw [List.flatMap_map]
    congr 1
    funext b
    rw [contents?]
    cases k.block? b <;> rfl
  have hpayloads : ∀ k : Heap V, k.payloads.flatMap Payload.parts =
      (k.payloads.map Payload.parts).flatten := fun k => rfl
  rw [held, held, hblocks, hblocks, hpayloads, hpayloads, hlength, hcontents, hparts]

end Heap

variable [Host V]

/-! ## Heaps that tasks lead to -/

/-- A task gives back at most one share of a payload, and takes its parts out with the last one. -/
theorem Task.Does.payload {t : Task V} {h h' : Heap V} {es : List (Event V)} {bs : List BlockId}
    {ts : List (Task V)} (hd : t.Does h es bs ts h') {p : PayloadId} {payload : Payload V}
    (hp : h.payloads[p]? = some payload) :
    h'.payloads[p]? = some payload ∨
      t = .drop (.payload p) ∧
        ((payload.shares = 1 ∧ h'.payloads[p]? = some ⟨0, []⟩) ∨
          ∃ k, payload.shares = k + 2 ∧
            h'.payloads[p]? = some { payload with shares := k + 1 }) := by
  cases hd with
  | disown => exact .inl hp
  | last hb hone => exact .inl hp
  | other hb hmore => exact .inl hp
  | @lastShare _ q other hq hone =>
    by_cases heq : q = p
    · subst heq
      rw [hp] at hq
      cases hq
      refine .inr ⟨rfl, .inl ⟨hone, ?_⟩⟩
      exact List.getElem?_set_self (List.getElem?_eq_some_iff.mp hp).1
    · exact .inl ((List.getElem?_set_ne heq).trans hp)
  | @otherShare _ q other k hq hmore =>
    by_cases heq : q = p
    · subst heq
      rw [hp] at hq
      cases hq
      refine .inr ⟨rfl, .inr ⟨k, hmore, ?_⟩⟩
      simp only [Heap.setShares, List.getElem?_modify_eq, hp]
      rfl
    · refine .inl (Eq.trans ?_ hp)
      simp only [Heap.setShares]
      exact List.getElem?_modify_ne _ _ heq

namespace Heap

/-- A task leads from one heap to another. -/
def Gives (h h' : Heap V) : Prop := ∃ t es bs ts, Task.Does t h es bs ts h'

/-- What tasks leave as it was. -/
structure Alike (h h' : Heap V) : Prop where
  /-- the system -/
  system : h'.system = h.system
  /-- the numbers of blocks -/
  blocks : h'.blocks.length = h.blocks.length
  /-- the numbers of payloads -/
  payloads : h'.payloads.length = h.payloads.length
  /-- the limit -/
  config : h'.config = h.config
  /-- the flag -/
  stable : h'.stable = h.stable

theorem Gives.alike {h h' : Heap V} (hg : h.Gives h') : h.Alike h' := by
  obtain ⟨t, es, bs, ts, hd⟩ := hg
  cases hd with
  | disown => exact ⟨rfl, rfl, rfl, rfl, rfl⟩
  | last hb hone => exact ⟨rfl, List.length_set, rfl, rfl, rfl⟩
  | other hb hmore => exact ⟨rfl, List.length_modify .., rfl, rfl, rfl⟩
  | lastShare hp hone => exact ⟨rfl, rfl, List.length_set, rfl, rfl⟩
  | otherShare hp hmore => exact ⟨rfl, rfl, List.length_modify .., rfl, rfl⟩

theorem Gives.within {h h' : Heap V} (hg : h.Gives h') : h'.Within h := by
  have hlength := hg.alike.payloads
  obtain ⟨t, es, bs, ts, hd⟩ := hg
  refine ⟨fun b block hb => ?_, fun p payload hp => ?_⟩
  · have hsome : h'.contents? b = some block.contents := contents?_eq hb
    have hsame := hd.loses.contents?_eq (hsome ▸ Option.some_ne_none _)
    obtain ⟨before, hbefore, hcontents⟩ := Option.map_eq_some_iff.mp (hsame.trans hsome)
    exact ⟨before, hbefore, hcontents.symm⟩
  · have hlt : p < h.payloads.length := by
      rw [← hlength]
      exact (List.getElem?_eq_some_iff.mp hp).1
    obtain ⟨before, hbefore⟩ : ∃ before, h.payloads[p]? = some before :=
      ⟨_, List.getElem?_eq_getElem hlt⟩
    rcases hd.payload hbefore with hsame | ⟨-, ⟨-, hcleared⟩ | ⟨k, -, hshared⟩⟩
    · rw [hp, Option.some_inj] at hsame
      exact .inr ⟨before, hbefore, congrArg Payload.parts hsame⟩
    · rw [hp, Option.some_inj] at hcleared
      exact .inl (congrArg Payload.parts hcleared)
    · rw [hp, Option.some_inj] at hshared
      exact .inr ⟨before, hbefore, by rw [hshared]⟩

/-- A payload that nobody shares stays as it is. -/
theorem Gives.spent {h h' : Heap V} (hg : h.Gives h') {p : PayloadId} {payload : Payload V}
    (hp : h.payloads[p]? = some payload) (hzero : payload.shares = 0) :
    h'.payloads[p]? = some payload := by
  obtain ⟨t, es, bs, ts, hd⟩ := hg
  rcases hd.payload hp with hsame | ⟨-, ⟨hone, -⟩ | ⟨k, hmore, -⟩⟩
  · exact hsame
  · omega
  · omega

theorem alike_of_gives {h h' : Heap V} (hg : ReflTransGen Gives h h') : h.Alike h' := by
  induction hg with
  | refl => exact ⟨rfl, rfl, rfl, rfl, rfl⟩
  | tail _ hstep ih =>
    have hnow := hstep.alike
    exact ⟨hnow.system.trans ih.system, hnow.blocks.trans ih.blocks,
      hnow.payloads.trans ih.payloads, hnow.config.trans ih.config, hnow.stable.trans ih.stable⟩

theorem within_of_gives {h h' : Heap V} (hg : ReflTransGen Gives h h') : h'.Within h := by
  induction hg with
  | refl => exact ⟨fun b block hb => ⟨block, hb, rfl⟩, fun p payload hp => .inr ⟨payload, hp, rfl⟩⟩
  | tail _ hstep ih => exact hstep.within.trans ih

theorem spent_of_gives {h h' : Heap V} (hg : ReflTransGen Gives h h') {p : PayloadId}
    {payload : Payload V} (hp : h.payloads[p]? = some payload) (hzero : payload.shares = 0) :
    h'.payloads[p]? = some payload := by
  induction hg with
  | refl => exact hp
  | tail _ hstep ih => exact hstep.spent ih hzero

/-- Which blocks went on the way from one heap to another, and that each was reported once. -/
theorem loses_of_gives {h h' : Heap V} (hg : ReflTransGen Gives h h') :
    ∃ es bs, h'.trace = es.reverse ++ h.trace ∧ h.Loses bs h' ∧
      Event.losses es = bs.map fun b => (h.sizeAt b, b) := by
  induction hg with
  | refl => exact ⟨[], [], rfl, .of_same rfl, rfl⟩
  | tail _ hstep ih =>
    obtain ⟨es, bs, htrace, hl, hlosses⟩ := ih
    obtain ⟨t, es', bs', ts, hd⟩ := hstep
    refine ⟨es ++ es', bs ++ bs', ?_, hl.trans hd.loses, ?_⟩
    · rw [hd.trace, htrace, List.reverse_append, List.append_assoc]
    · rw [Event.losses_append, hlosses, hd.losses, hl.sizes hd.loses, List.map_append]

end Heap

section

variable [Faced V]

/-- Giving back a reference is a task, or leaves the heap as it is. -/
theorem Yield.gives {l l' : Ledger V} (hy : Yield l l') (hl : l.Sound) (he : l.Exact) :
    l'.heap = l.heap ∨ l.heap.Gives l'.heap := by
  cases hy with
  | part => exact .inl rfl
  | lapse hc => exact .inl rfl
  | @task h os w t =>
    obtain ⟨es, bs, hd⟩ := t.does_carryOut hl he
    exact .inr ⟨t, es, bs, _, hd⟩

theorem Yields.gives {l l' : Ledger V} (hy : Yields l l') (hl : l.Sound) (he : l.Exact) :
    ReflTransGen Heap.Gives l.heap l'.heap := by
  induction hy with
  | refl => exact .refl
  | tail hbefore hstep ih =>
    have hmoves := Yields.moves hbefore
    rcases hstep.gives (Moves.sound hmoves hl) (Moves.tally countRule_exactly hmoves hl he) with
      hsame | hgives
    · rwa [hsame]
    · exact ih.tail hgives

/-! ## What one run keeps, the other does not destroy -/

omit [Faced V] in
/-- A reference that is owned in the end, where the heap holds nothing that another does not hold,
is held by that one or owned outside. -/
theorem Heap.Within.mem_refs {g h : Heap V} (hw : g.Within h) {os : Multiset (Owner V)}
    {w : Written V} {r : Ref} (hr : r ∈ Ledger.refs ⟨g, os, w⟩) :
    (∃ v ∈ h.held, Host.ref v = some r) ∨ r ∈ Owner.refs os := by
  rcases Multiset.mem_add.mp hr with hr | hr
  · obtain ⟨v, hv, href⟩ := (Multiset.mem_filterMap _ _).mp hr
    exact .inl ⟨v, hw.mem_held hv, href⟩
  · exact .inr hr

omit [Faced V] in
/-- When a block is destroyed, nothing in the heap refers to it. -/
theorem Ledger.Exact.last_reference {h : Heap V} {os : Multiset (Owner V)} {w : Written V}
    {b n : Nat} (he : Ledger.Exact ⟨h, {.ref (.block b n)} + os, w⟩) {block : Block V}
    (hb : h.block? b = some block) (hone : block.count = 1) {v : V} (hv : v ∈ h.held) {r : Ref}
    (hr : Host.ref v = some r) : r.block? ≠ some b := by
  intro hrb
  have hcount := (he b _ _ (Heap.shape?_eq hb)).1
  have htwo : 2 ≤ Ledger.ownersOf ⟨h, {.ref (.block b n)} + os, w⟩ b :=
    Ledger.two_le_countP hv hr hrb rfl
  omega

/-- When a payload is cleared, nothing in the heap shares it. -/
theorem Ledger.Sound.last_share {h : Heap V} {os : Multiset (Owner V)} {w : Written V}
    {p : PayloadId} (hl : Ledger.Sound ⟨h, {.ref (.payload p)} + os, w⟩) {payload : Payload V}
    (hp : h.payloads[p]? = some payload) (hone : payload.shares = 1) {v : V} (hv : v ∈ h.held) :
    Host.ref v ≠ some (.payload p) := by
  intro hr
  have hshares := hl.shared p payload hp
  have htwo : 2 ≤ Ledger.sharersOf ⟨h, {.ref (.payload p)} + os, w⟩ p :=
    Ledger.two_le_countP hv hr rfl rfl
  omega

/-- A run that ends with the same owners as another does not destroy with its next task what the
other keeps. -/
theorem Task.Does.within {h h₁ h₂ : Heap V} {os os' : Multiset (Owner V)} {w w' : Written V}
    {t : Task V} (hl : Ledger.Sound ⟨h, {Owner.ofTask t} + os', w'⟩)
    (he : Ledger.Exact ⟨h, {Owner.ofTask t} + os', w'⟩)
    (hrest : ReflTransGen Heap.Gives (t.carryOut h).2 h₁) (hl₁ : Ledger.Sound ⟨h₁, os, w⟩)
    (hl₂ : Ledger.Sound ⟨h₂, os, w⟩) (he₂ : Ledger.Exact ⟨h₂, os, w⟩) (hwithin : h₂.Within h) :
    h₂.Within (t.carryOut h).2 := by
  obtain ⟨es, bs, hd⟩ := t.does_carryOut hl he
  refine ⟨fun b block hb => ?_, fun p payload hp => ?_⟩
  · obtain ⟨other, hother, hsame⟩ := hwithin.block b block hb
    rcases hnext : (t.carryOut h).2.block? b with - | next
    · -- the last reference to the block is given back, so what owns it in the end is not there
      exfalso
      obtain ⟨n, rfl, hone⟩ := t.eq_drop_of_gone h hother hnext
      obtain ⟨howners, hpos⟩ := he₂ b _ _ (Heap.shape?_eq hb)
      rw [howners] at hpos
      obtain ⟨r, hr, hrb⟩ := Multiset.countP_pos.mp hpos
      rcases hwithin.mem_refs hr with ⟨v, hv, href⟩ | hr
      · exact he.last_reference hother hone hv href hrb
      · have hgone : h₁.block? b = none := by
          by_contra hthere
          obtain ⟨last, hlast⟩ := Option.ne_none_iff_exists'.mp hthere
          obtain ⟨next, hnow, -⟩ := (Heap.within_of_gives hrest).block b last hlast
          rw [hnext] at hnow
          cases hnow
        have hnobody : Ledger.ownersOf ⟨h₁, os, w⟩ b = 0 :=
          ownersOf_eq_zero hl₁ (by rw [Heap.shape?, hgone]; rfl)
        exact Multiset.countP_eq_zero.mp hnobody r (Ledger.mem_refs_of_owned hr) hrb
    · obtain ⟨before, hbefore, hcontents⟩ := t.contents_carryOut h hnext
      rw [hother] at hbefore
      cases hbefore
      exact ⟨next, rfl, hsame.trans hcontents.symm⟩
  · rcases hwithin.parts p payload hp with hnil | ⟨other, hother, hsame⟩
    · exact .inl hnil
    · rcases hd.payload hother with hnext | ⟨rfl, ⟨hone, hcleared⟩ | ⟨k, -, hnext⟩⟩
      · exact .inr ⟨other, hnext, hsame⟩
      · -- the last share of the payload is given back, so it is spent in the end
        left
        refine hl₂.spent p payload hp ?_
        rw [hl₂.shared p payload hp]
        refine Multiset.count_eq_zero.mpr fun hr => ?_
        rcases hwithin.mem_refs hr with ⟨v, hv, href⟩ | hr
        · exact hl.last_share hother hone hv href
        · have hnobody := hl₁.shared p _ (Heap.spent_of_gives hrest hcleared rfl)
          exact Multiset.count_eq_zero.mp hnobody.symm (Ledger.mem_refs_of_owned hr)
      · exact .inr ⟨_, hnext, hsame⟩

/-- What one run of two keeps, the other does not destroy. -/
theorem Yields.within {l : Ledger V} {h₁ h₂ : Heap V} {os : Multiset (Owner V)} {w : Written V}
    (hl : l.Sound) (he : l.Exact) (hy₁ : Yields l ⟨h₁, os, w⟩) (hy₂ : Yields l ⟨h₂, os, w⟩) :
    h₂.Within h₁ := by
  have hl₁ := Moves.sound hy₁.moves hl
  have hl₂ := Moves.sound hy₂.moves hl
  have he₂ : Ledger.Exact ⟨h₂, os, w⟩ := Moves.tally countRule_exactly hy₂.moves hl he
  -- wherever the first run has come to, it has not destroyed anything that the second one keeps
  suffices hall : ∀ l', Yields l l' → Yields l' ⟨h₁, os, w⟩ → h₂.Within l'.heap from
    hall _ hy₁ .refl
  intro l' hbefore
  induction hbefore with
  | refl =>
    intro _
    exact Heap.within_of_gives (hy₂.gives hl he)
  | @tail l' l'' hbefore hstep ih =>
    intro hafter
    have hwithin := ih (.head hstep hafter)
    have hsound := Moves.sound (Yields.moves hbefore) hl
    have hexact : l'.Exact := Moves.tally countRule_exactly (Yields.moves hbefore) hl he
    have hrest := Yields.gives hafter (hstep.move.sound hsound)
      (hstep.move.tally countRule_exactly hsound hexact)
    cases hstep with
    | part => exact hwithin
    | lapse hc => exact hwithin
    | task t => exact Task.Does.within hsound hexact hrest hl₁ hl₂ he₂ hwithin

/-! ## The same heap -/

omit [Host V] [Faced V] in
/-- Cells that all count one are told by their values. -/
theorem Cell.eq_of_values {cs ds : List (Cell V)}
    (hvalues : cs.map Cell.value = ds.map Cell.value) (hcs : ∀ c ∈ cs, c.count = 1)
    (hds : ∀ d ∈ ds, d.count = 1) : cs = ds := by
  induction cs generalizing ds with
  | nil => exact (List.map_eq_nil_iff.mp hvalues.symm).symm
  | cons c cs ih =>
    cases ds with
    | nil => cases hvalues
    | cons d ds =>
      obtain ⟨hvalue, hrest⟩ := List.cons_eq_cons.mp hvalues
      obtain ⟨hc, hcs⟩ := List.forall_mem_cons.mp hcs
      obtain ⟨hd, hds⟩ := List.forall_mem_cons.mp hds
      have hfirst : c = d := by
        cases c
        cases d
        exact congrArg₂ Cell.mk (hc.trans hd.symm) hvalue
      rw [hfirst, ih hrest hcs hds]

omit [Host V] [Faced V] in
/-- A block is told by its count and its contents, as only the first cell counts. -/
theorem Block.eq_of_contents {block other : Block V} (hcount : block.count = other.count)
    (hcontents : block.contents = other.contents) (hrest : ∀ c ∈ block.rest, c.count = 1)
    (hrest' : ∀ c ∈ other.rest, c.count = 1) : block = other := by
  obtain ⟨⟨count, value⟩, rest⟩ := block
  obtain ⟨⟨count', value'⟩, rest'⟩ := other
  obtain ⟨hvalue, hvalues⟩ := List.cons_eq_cons.mp hcontents
  obtain rfl : count = count' := hcount
  obtain rfl : value = value' := hvalue
  obtain rfl : rest = rest' := Cell.eq_of_values hvalues hrest hrest'
  rfl

section Equal

variable {h₁ h₂ : Heap V} {os : Multiset (Owner V)} {w : Written V}

omit [Faced V] in
/-- Blocks with the same contents are the same, since a count is the number of owners. -/
theorem Ledger.Exact.block?_eq (he₁ : Ledger.Exact ⟨h₁, os, w⟩) (he₂ : Ledger.Exact ⟨h₂, os, w⟩)
    (hu₁ : h₁.Unaltered) (hu₂ : h₂.Unaltered) (hcontents : h₁.contents? = h₂.contents?)
    (hrefs : Ledger.refs ⟨h₁, os, w⟩ = Ledger.refs ⟨h₂, os, w⟩) : h₁.block? = h₂.block? := by
  funext b
  have hsame := congrFun hcontents b
  rcases hb : h₁.block? b with - | block
  · rw [Heap.contents?_eq_none_iff.mpr hb] at hsame
    exact (Heap.contents?_eq_none_iff.mp hsame.symm).symm
  · rw [Heap.contents?_eq hb] at hsame
    obtain ⟨other, hother, hcells⟩ := Option.map_eq_some_iff.mp hsame.symm
    have hcount : block.count = other.count := by
      rw [(he₁ b _ _ (Heap.shape?_eq hb)).1, (he₂ b _ _ (Heap.shape?_eq hother)).1,
        Ledger.ownersOf, hrefs, Ledger.ownersOf]
    rw [hother, Block.eq_of_contents hcount hcells.symm (hu₁.rest b block hb)
      (hu₂.rest b other hother)]

/-- Payloads with the same parts are the same, since their shares are the number of sharers. -/
theorem Ledger.Sound.payloads_eq (hl₁ : Ledger.Sound ⟨h₁, os, w⟩) (hl₂ : Ledger.Sound ⟨h₂, os, w⟩)
    (hlength : h₁.payloads.length = h₂.payloads.length)
    (hparts : h₁.payloads.map Payload.parts = h₂.payloads.map Payload.parts)
    (hrefs : Ledger.refs ⟨h₁, os, w⟩ = Ledger.refs ⟨h₂, os, w⟩) : h₁.payloads = h₂.payloads := by
  apply List.ext_getElem hlength
  intro p hp hp'
  have hshares : h₁.payloads[p].shares = h₂.payloads[p].shares := by
    rw [hl₁.shared p _ (List.getElem?_eq_getElem hp),
      hl₂.shared p _ (List.getElem?_eq_getElem hp'), Ledger.sharersOf, hrefs, Ledger.sharersOf]
  have hsame : h₁.payloads[p].parts = h₂.payloads[p].parts := by
    have hmap := congrArg (fun ps => ps[p]?) hparts
    simp only [List.getElem?_map, List.getElem?_eq_getElem hp, List.getElem?_eq_getElem hp',
      Option.map_some, Option.some_inj] at hmap
    exact hmap
  calc h₁.payloads[p] = ⟨h₁.payloads[p].shares, h₁.payloads[p].parts⟩ := rfl
    _ = h₂.payloads[p] := by rw [hshares, hsame]

omit [Host V] [Faced V] in
/-- Statistics that add up are a matter of the blocks. -/
theorem Heap.Accounted.stats_eq (ha₁ : h₁.Accounted) (ha₂ : h₂.Accounted)
    (hlength : h₁.blocks.length = h₂.blocks.length) (hblock : h₁.block? = h₂.block?) :
    h₁.stats = h₂.stats := by
  have hblocks : h₁.blocks = h₂.blocks := by
    rw [h₁.blocks_eq_map, h₂.blocks_eq_map, hlength, hblock]
  have hliving : h₁.living = h₂.living := by
    simp only [Heap.living, hblocks, hblock]
  have hsize : h₁.sizeAt = h₂.sizeAt := by
    funext b
    rw [Heap.sizeAt, Heap.sizeAt, hblock]
  rw [ha₁, ha₂, hliving, hsize]

end Equal

/-- In whatever order references are given back, the heap is the same in the end, but for the
trace. -/
theorem Yields.confluent {l : Ledger V} {h₁ h₂ : Heap V} {os : Multiset (Owner V)} {w : Written V}
    (hl : l.Sound) (he : l.Exact) (hu : l.heap.Unaltered) (ha : l.heap.Accounted)
    (hs : l.heap.strays = []) (hy₁ : Yields l ⟨h₁, os, w⟩) (hy₂ : Yields l ⟨h₂, os, w⟩) :
    h₁.withoutTrace = h₂.withoutTrace := by
  have hl₁ := Moves.sound hy₁.moves hl
  have hl₂ := Moves.sound hy₂.moves hl
  have he₁ : Ledger.Exact ⟨h₁, os, w⟩ := Moves.tally countRule_exactly hy₁.moves hl he
  have he₂ : Ledger.Exact ⟨h₂, os, w⟩ := Moves.tally countRule_exactly hy₂.moves hl he
  have hu₁ : h₁.Unaltered := Moves.keeps Heap.kept_unaltered hy₁.moves hl hu
  have hu₂ : h₂.Unaltered := Moves.keeps Heap.kept_unaltered hy₂.moves hl hu
  have ha₁ : h₁.Accounted := Moves.keeps Heap.kept_accounted hy₁.moves hl ha
  have ha₂ : h₂.Accounted := Moves.keeps Heap.kept_accounted hy₂.moves hl ha
  have hs₁ : h₁.strays = [] := Moves.keeps (Heap.kept_strays []) hy₁.moves hl hs
  have hs₂ : h₂.strays = [] := Moves.keeps (Heap.kept_strays []) hy₂.moves hl hs
  have halike₁ := Heap.alike_of_gives (hy₁.gives hl he)
  have halike₂ := Heap.alike_of_gives (hy₂.gives hl he)
  have hlength := halike₁.blocks.trans halike₂.blocks.symm
  have hlength' := halike₁.payloads.trans halike₂.payloads.symm
  -- what is there is the same
  have hwithin := Yields.within hl he hy₂ hy₁
  have hwithin' := Yields.within hl he hy₁ hy₂
  have hcontents := hwithin.contents?_eq hwithin'
  have hparts := hwithin.parts_eq hwithin' hlength'
  -- so are the references, and with them the counts
  have hrefs : Ledger.refs ⟨h₁, os, w⟩ = Ledger.refs ⟨h₂, os, w⟩ := by
    rw [Ledger.refs_mk, Ledger.refs_mk, Heap.held_congr hlength hcontents hparts]
  have hblock := he₁.block?_eq he₂ hu₁ hu₂ hcontents hrefs
  have hblocks : h₁.blocks = h₂.blocks := by
    rw [h₁.blocks_eq_map, h₂.blocks_eq_map, hlength, hblock]
  have hpayloads := hl₁.payloads_eq hl₂ hlength' hparts hrefs
  have hstats := ha₁.stats_eq ha₂ hlength hblock
  have hsystem := halike₁.system.trans halike₂.system.symm
  have hconfig := halike₁.config.trans halike₂.config.symm
  have hstable := halike₁.stable.trans halike₂.stable.symm
  cases h₁
  cases h₂
  simp only at hsystem hblocks hpayloads hstats hconfig hstable hs₁ hs₂
  simp only [Heap.withoutTrace, hsystem, hblocks, hpayloads, hstats, hconfig, hstable, hs₁, hs₂]

/-! ## Parts in any order -/

omit [Faced V] in
/-- A cascade can take what a task leads to in any order, such as the parts of a payload. -/
inductive Heap.Settles : List (Task V) → Heap V → Heap V → Prop where
  /-- nothing is left to do -/
  | nil {h : Heap V} : Settles [] h h
  /-- the first task is carried out, and what it leads to goes before the others -/
  | cons {h g : Heap V} {t : Task V} {ts us : List (Task V)} (hus : us.Perm (t.carryOut h).1)
      (hrest : Settles (us ++ ts) (t.carryOut h).2 g) : Settles (t :: ts) h g

omit [Faced V] in
theorem Heap.Settles.yields {ts : List (Task V)} {h g : Heap V} (hg : Heap.Settles ts h g)
    (os : Multiset (Owner V)) (w : Written V) :
    Yields ⟨h, Owner.ofTasks ts + os, w⟩ ⟨g, os, w⟩ := by
  induction hg with
  | nil => exact Yields.reown .refl (zero_add os)
  | @cons h g t ts us hus hrest ih =>
    have hsame : Owner.ofTasks us = Owner.ofTasks (t.carryOut h).1 :=
      Multiset.coe_eq_coe.mpr (hus.map _)
    rw [Owner.ofTasks_append, hsame, ← Owner.ofTasks_append] at ih
    exact .head (.first h t ts os w) ih

/-- Nothing but the trace depends on the order in which a cascade takes the parts. -/
def Ledger.Indifferent (l : Ledger V) : Prop :=
  ∀ ts os, l.owners = Owner.ofTasks ts + os → ∀ g, Heap.Settles ts l.heap g →
    g.withoutTrace = (l.heap.settle ts).withoutTrace

theorem Ledger.Exact.indifferent {l : Ledger V} (he : l.Exact) (hl : l.Sound)
    (hu : l.heap.Unaltered) (ha : l.heap.Accounted) (hs : l.heap.strays = []) :
    l.Indifferent := by
  intro ts os hos g hg
  obtain ⟨h, owners, w⟩ := l
  obtain rfl : owners = Owner.ofTasks ts + os := hos
  exact Yields.confluent hl he hu ha hs (hg.yields os w) (Yields.settle ts)

end

end CountedCells

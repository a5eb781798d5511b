import CountedCells.Proofs.Conservation
import CountedCells.Proofs.Related
import CountedCells.Proofs.WriteBack

/-!
# Agreement: different ways to do one thing

What a pointer is good for can be done in several ways. A collection is made from a count or from
values, and a single cell as a collection of one, or by writing through a null pointer; a single
cell is read and written as the first of a block; and all cells are read at once or one by one.
These are different routines, with loops and checks of their own, and they agree in everything that
can be seen: results, errors, counts, statistics, calls of the host, and the trace.

A write through a null pointer tells one event more than making a cell, and tells it before the
value is stored. What happens after that does not depend on what was told: heaps that differ in one
event (`Heap.Extra`) are related by a congruence.

Reading all cells drops what was read if a read is abandoned, and reading them one by one does not.
On an intact heap a read is abandoned only where a count `Overflows`; then both end at the same
cell, and but for that both come to the same values and heap.
-/

namespace CountedCells

open Attempt
open scoped Relator

variable {V : Type}

/-! ## One more event -/

namespace Heap

/-- The second heap tells one event more, told after `before`, and is otherwise the same. -/
structure Extra (e : Event V) (before : List (Event V)) (h g : Heap V) : Prop
    extends h.Matches g where
  /-- the same flag -/
  stable : h.stable = g.stable
  /-- the same accesses have found nothing -/
  strays : h.strays = g.strays
  /-- everything else is told in the same order -/
  told : ∃ later, h.trace = later ++ before ∧ g.trace = later ++ e :: before

namespace Extra

variable {e : Event V} {before : List (Event V)} {h g : Heap V}

/-- The event is told. -/
theorem start (h : Heap V) (e : Event V) : Extra e h.trace h (h.log e) :=
  ⟨⟨rfl, rfl, rfl, rfl, rfl⟩, rfl, rfl, [], rfl, rfl⟩

/-- Both heaps tell the same. -/
theorem cons (hx : Extra e before h g) (e' : Event V) :
    ∃ later, e' :: h.trace = later ++ before ∧ e' :: g.trace = later ++ e :: before := by
  obtain ⟨later, hh, hg⟩ := hx.told
  exact ⟨e' :: later, congrArg (e' :: ·) hh, congrArg (e' :: ·) hg⟩

end Extra

theorem congruence_extra (e : Event V) (before : List (Event V)) :
    Congruence (Extra e before) where
  alike _ _ hx := hx.toMatches
  addBlock h g n hx _ := by
    refine ⟨⟨hx.system, ?_, hx.payloads, ?_, hx.config⟩, hx.stable, hx.strays, ?_⟩
    · simp only [addBlock, hx.blocks]
    · simp only [addBlock, hx.stats]
    · simp only [addBlock, ← hx.blocks]
      exact hx.cons _
  destroy b n h g hx := by
    refine ⟨⟨hx.system, ?_, hx.payloads, ?_, hx.config⟩, hx.stable, hx.strays, hx.cons _⟩
    · simp only [destroy, hx.blocks]
    · simp only [destroy, hx.stats]
  mapBlock b f h g hx := by
    refine ⟨⟨hx.system, ?_, hx.payloads, hx.stats, hx.config⟩, hx.stable, hx.strays, hx.told⟩
    simp only [mapBlock, hx.blocks]
  payloads ps _ _ hx :=
    ⟨⟨hx.system, hx.blocks, rfl, hx.stats, hx.config⟩, hx.stable, hx.strays, hx.told⟩
  log _ _ e' hx _ :=
    ⟨⟨hx.system, hx.blocks, hx.payloads, hx.stats, hx.config⟩, hx.stable, hx.strays, hx.cons e'⟩
  stray _ _ a hx :=
    ⟨⟨hx.system, hx.blocks, hx.payloads, hx.stats, hx.config⟩, hx.stable,
      congrArg (a :: ·) hx.strays, hx.told⟩

end Heap

variable [Host V] {h : Heap V}

/-! ## Making blocks -/

namespace Pointer

/-- Where there is no room, nothing is made. -/
theorem allocateCollection_of_refused {filling : Filling V} {e : HeapError}
    (hn : h.shortage? filling.size = some e) :
    allocateCollection filling h = (.error (.error e), h) :=
  bind_of_error (Heap.allocate_of_shortage hn)

theorem allocate_of_refused {e : HeapError} (hn : h.shortage? 1 = some e) (v : V) :
    allocate v h = (.error (.error e), h) :=
  bind_of_error (Heap.allocate_of_shortage hn)

/-- What is made where a fresh block can be filled. -/
theorem made_of_filled {n : Nat} {filling : BlockId → Action V Unit} {g : Heap V}
    (hn : h.shortage? n = none)
    (hfill : filling h.blocks.length (h.addBlock n) = (.ok (), g)) :
    (do
      let b ← Heap.allocate n
      (filling b).orElseUndo (·.dropPointer (cells b n))
      Pure.pure (cells b n) : Action V Pointer) h = (.ok (cells h.blocks.length n), g) := by
  have hundo : (filling h.blocks.length).orElseUndo
      (·.dropPointer (cells h.blocks.length n)) (h.addBlock n) = (.ok (), g) := by
    rw [Attempt.orElseUndo, hfill]
  exact (bind_of_ok (Heap.allocate_of_room hn)).trans (bind_of_ok hundo)

/-- A count stands for so many default values. -/
theorem allocateCollection_count (n : Nat) :
    (allocateCollection (.count n) : Action V Pointer) =
      allocateCollection (.values (List.replicate n default)) := by
  have hsize : Filling.size (.values (List.replicate n (default : V))) = n := List.length_replicate
  rw [allocateCollection, allocateCollection, hsize]
  rfl

/-- Filling a block of one cell is storing in the cell. -/
theorem fill_singleton (b : BlockId) (v : V) :
    (cells b 1).fill 0 [v] = (Heap.store b 0 v : Action V Unit) := by
  rw [fill, setAt_eq Nat.one_pos]
  exact bind_pure _

/-- A single cell is a collection of one. -/
theorem allocateCollection_singleton (v : V) :
    allocateCollection (.values [v]) = (allocate v : Action V Pointer) := by
  rw [allocateCollection, allocate]
  refine bind_congr fun b => ?_
  show ((cells b 1).fill 0 [v]).orElseUndo _ >>= _ = _
  rw [fill_singleton]
  rfl

end Pointer

namespace Heap

/-- A default value is stored in an unset cell without touching any count. -/
theorem store_default {b i : Nat} {cs : List (Option V)} (hcs : h.contents? b = some cs)
    (hi : cs[i]? = some none) :
    Heap.store b i default h =
      (.ok (), (h.log (.acquired .cell default h.stats)).setValue b i (some default)) := by
  have hacquire : Heap.acquire .cell (default : V) h =
      (.ok (), h.log (.acquired .cell default h.stats)) := by
    rw [acquire, copy, Host.ref_default]
    rfl
  obtain ⟨block, hb, rfl⟩ := Option.map_eq_some_iff.mp hcs
  have hlt : i < block.size := by
    rw [← block.length_contents]
    exact (List.getElem?_eq_some_iff.mp hi).1
  have hb' : (h.log (.acquired .cell default h.stats)).block? b = some block := hb
  have hunset : (h.log (.acquired .cell default h.stats)).value? b i = none := by
    rw [Heap.value?_eq hb', hi, Option.join_some]
  refine (bind_of_ok hacquire).trans ?_
  rw [update_apply]
  simp only [replace, hunset, touch_eq hb' hlt]

/-- Of the cells of a block that were unset, `k` have been given the default value, and `m` not yet.
Nothing else has changed, and the trace tells of each. -/
structure Defaulted (h : Heap V) (b : BlockId) (k m : Nat) (g : Heap V) : Prop where
  /-- the cells of the block -/
  contents : g.contents? b = some (List.replicate k (some default) ++ List.replicate m none)
  /-- the count of the block -/
  count : g.count b = h.count b
  /-- the other blocks -/
  others : ∀ c ≠ b, g.block? c = h.block? c
  /-- where memory comes from -/
  system : g.system = h.system
  /-- the payloads -/
  payloads : g.payloads = h.payloads
  /-- the statistics -/
  stats : g.stats = h.stats
  /-- the limit -/
  config : g.config = h.config
  /-- the flag -/
  stable : g.stable = h.stable
  /-- the accesses that have found nothing -/
  strays : g.strays = h.strays
  /-- what is told -/
  trace : g.trace = List.replicate k (.acquired .cell default h.stats) ++ h.trace

namespace Defaulted

variable {g : Heap V} {b : BlockId} {k m : Nat}

theorem start (hcs : h.contents? b = some (List.replicate m none)) : h.Defaulted b 0 m h :=
  ⟨hcs, rfl, fun _ _ => rfl, rfl, rfl, rfl, rfl, rfl, rfl, rfl⟩

/-- One more cell. -/
theorem store (hd : h.Defaulted b k (m + 1) g) :
    ∃ g', Heap.store b k default g = (.ok (), g') ∧ h.Defaulted b (k + 1) m g' := by
  have hunset : (List.replicate k (some (default : V)) ++ List.replicate (m + 1) none)[k]? =
      some none := by
    rw [List.getElem?_append_right (by simp)]
    simp
  have hset : (List.replicate k (some (default : V)) ++ List.replicate (m + 1) none).set k
      (some default) = List.replicate (k + 1) (some default) ++ List.replicate m none := by
    rw [List.set_append_right _ _ (by simp), List.length_replicate, Nat.sub_self,
      List.replicate_succ, List.set_cons_zero, List.replicate_succ', List.append_assoc]
    rfl
  refine ⟨_, store_default hd.contents hunset, ?_, ?_, ?_, hd.system, hd.payloads, hd.stats,
    hd.config, hd.stable, hd.strays, ?_⟩
  · have hcontents : (g.log (.acquired .cell default g.stats)).contents? b = _ := hd.contents
    rw [contents?_setValue, hcontents, Option.map_some, hset]
  · rw [count_setValue]
    exact hd.count
  · intro c hc
    rw [block?_setValue, if_neg hc]
    exact hd.others c hc
  · rw [List.replicate_succ, List.cons_append, ← hd.trace, ← hd.stats]
    rfl

/-- All cells that are left. -/
theorem fill (hd : h.Defaulted b k m g) :
    ∃ g', (Pointer.cells b (k + m)).fill k (List.replicate m default) g = (.ok (), g') ∧
      h.Defaulted b (k + m) 0 g' := by
  induction m generalizing k g with
  | zero => exact ⟨g, rfl, hd⟩
  | succ m ih =>
    obtain ⟨g₁, hstore, hd₁⟩ := hd.store
    obtain ⟨g₂, hrest, hd₂⟩ := ih hd₁
    have hset : (Pointer.cells b (k + (m + 1))).setAt k default g = (.ok (), g₁) := by
      rw [Pointer.setAt_eq (by omega), hstore]
    rw [Nat.add_right_comm, Nat.add_assoc] at hrest hd₂
    exact ⟨g₂, (bind_of_ok hset).trans hrest, hd₂⟩

end Defaulted
end Heap

/-- A collection of default values is made wherever there is room, whatever the counts are: a fresh
block with one reference, in which every cell holds the default value. -/
theorem Pointer.exists_allocateCollection_count {n : Nat} (hn : h.shortage? n = none) :
    ∃ g, allocateCollection (.count n) h = (.ok (.cells h.blocks.length n), g) ∧
      (h.addBlock n).Defaulted h.blocks.length n 0 g := by
  have hstart : (h.addBlock n).Defaulted h.blocks.length 0 n (h.addBlock n) :=
    .start (Heap.contents?_addBlock (Heap.pos_of_shortage? hn) h)
  obtain ⟨g, hfill, hd⟩ := hstart.fill
  rw [Nat.zero_add] at hfill hd
  exact ⟨g, Pointer.made_of_filled hn hfill, hd⟩

/-! ## Writing through a null pointer -/

namespace Pointer

theorem set_null_of_refused {e : HeapError} (hn : h.shortage? 1 = some e) (v : V) :
    null.set v h = ((null, .error (.error e)), h) := by
  rw [set_null_eq, Heap.refusal_eq, hn]

/-- Where there is room, the value is stored in a fresh cell after the write was told. -/
theorem set_null_of_room (hn : h.shortage? 1 = none) (v : V) :
    let b := h.blocks.length
    let g := (h.addBlock 1).log (.upgraded b)
    null.set v h = ((cells b 1, (Heap.store b 0 v g).1), (Heap.store b 0 v g).2) := by
  rw [set_null_eq, Heap.refusal_eq, hn]

/-- If the value cannot be stored, the fresh cell is given back. -/
theorem allocate_of_abandoned {g : Heap V} {v : V} {f : Fault} (hn : h.shortage? 1 = none)
    (hstore : Heap.store h.blocks.length 0 v (h.addBlock 1) = (.error f, g)) :
    allocate v h = (.error f, g.dropPointer (cells h.blocks.length 1)) := by
  have hundo : (Heap.store h.blocks.length 0 v).orElseUndo
      (·.dropPointer (cells h.blocks.length 1)) (h.addBlock 1) =
        (.error f, g.dropPointer (cells h.blocks.length 1)) := by
    rw [Attempt.orElseUndo, hstore]
  exact (bind_of_ok (Heap.allocate_of_room hn)).trans (bind_of_error hundo)

/-- A write through a null pointer fails as making a cell for the value does, and otherwise comes to
the same pointer and heap, with the write told in addition. -/
theorem set_null_agrees (v : V) (h : Heap V) :
    (∀ f, (null.set v h).1.2 = .error f ↔ (allocate v h).1 = .error f) ∧
      ∀ p g, allocate v h = (.ok p, g) → p = .cells h.blocks.length 1 ∧
        ∃ g', null.set v h = ((p, .ok ()), g') ∧
          g.Extra (.upgraded h.blocks.length) (.allocated 1 h.blocks.length :: h.trace) g' := by
  rcases hn : h.shortage? 1 with - | e
  · -- the value is stored in one and the same cell, before or after the write is told
    obtain ⟨hresult, hheap⟩ := (Heap.congruence_extra _ _).store h.blocks.length 0 v
      (Heap.Extra.start (h.addBlock 1) (.upgraded h.blocks.length))
    rw [set_null_of_room hn]
    rcases hstore : Heap.store h.blocks.length 0 v (h.addBlock 1) with ⟨f | u, g⟩ <;>
      rw [hstore] at hresult hheap
    · rw [allocate_of_abandoned hn hstore, ← hresult]
      refine ⟨fun f' => ?_, nofun⟩
      rw [Except.error.injEq, Except.error.injEq]
    · have hmade : allocate v h = (.ok (cells h.blocks.length 1), g) := made_of_filled hn hstore
      rw [hmade, ← hresult]
      refine ⟨fun _ => iff_of_false nofun nofun, ?_⟩
      rintro p g' ⟨⟩
      exact ⟨rfl, _, rfl, hheap⟩
  · rw [set_null_of_refused hn, allocate_of_refused hn]
    refine ⟨fun f => ?_, nofun⟩
    rw [Except.error.injEq, Except.error.injEq]

end Pointer

/-! ## Single cells -/

omit [Host V] in
/-- A block has at least one cell, and a pointer to it that is no collection has exactly one. -/
theorem Pointer.eq_one_of_single {b : BlockId} {n : Nat}
    (hsingle : (cells b n).isCollection = false) {block : Block V} (hn : block.size = n) :
    n = 1 := by
  have hle : ¬ 1 < n := of_decide_eq_false hsingle
  have hpos : 0 < block.size := Nat.succ_pos _
  omega

/-- A single cell is read and written as the first of a block. -/
theorem Pointer.single_agrees (b : BlockId) (h : Heap V) :
    (cells b 1).get h = (cells b 1).getAt 0 h ∧
      ∀ v, (cells b 1).set v h =
        ((cells b 1, ((cells b 1).setAt 0 v h).1), ((cells b 1).setAt 0 v h).2) := by
  rw [get_eq, getAt_eq Nat.one_pos]
  refine ⟨rfl, fun v => ?_⟩
  rw [setAt_eq Nat.one_pos]
  exact set_eq rfl v

/-! ## All cells -/

section

variable {b : BlockId} {block : Block V} {g : Heap V} {es : List (Event V)}

/-- What can be acquired after other references were taken could have been acquired before. -/
theorem Heap.Calls.exists_acquire (hc : h.Calls es g) {v : V} (hv : h.Counted v) {holder : Holder}
    {g' : Heap V} (hacquire : Heap.acquire holder v g = (.ok (), g')) :
    ∃ h', Heap.acquire holder v h = (.ok (), h') := by
  suffices hcopy : ∃ h', Heap.copy v h = (.ok (), h') by
    obtain ⟨h', hcopy⟩ := hcopy
    exact ⟨_, bind_of_ok hcopy⟩
  rcases hlater : Heap.copy v g with ⟨f | ⟨⟩, g₁⟩
  · rw [Heap.acquire, bind_of_error hlater] at hacquire
    cases hacquire
  · rw [Heap.copy] at hlater ⊢
    rcases hr : Host.ref v with - | (⟨c, n⟩ | p) <;> simp only [hr] at hlater ⊢
    · exact ⟨h, rfl⟩
    · obtain ⟨-, hroom, -⟩ := Heap.retainOr_eq_ok hlater
      have hlower := hc.counts c
      exact ⟨_, Heap.retainOr_of_lt (hv c n hr) (by omega) _⟩
    · exact ⟨_, rfl⟩

/-- What can be read after other references were taken could have been read before. -/
theorem Heap.Calls.read_fst (hc : h.Calls es g) (hb : h.block? b = some block) {i : Nat}
    (hlt : i < block.size) (hcounted : ∀ v, block.value? i = some v → h.Counted v) {v : V}
    {g' : Heap V} (hread : Heap.read b i g = (.ok v, g')) : (Heap.read b i h).1 = .ok v := by
  obtain ⟨block', hb', -, hsize⟩ := hc.exists_block hb
  rw [read_apply hb' (hsize ▸ hlt), hc.value?_eq] at hread
  rw [read_apply hb hlt]
  rcases hv : h.value? b i with - | u <;> simp only [hv] at hread ⊢
  · cases hread
    rfl
  · have hvalue : block.value? i = some u := by rwa [value?, hb, Option.bind_some] at hv
    rcases hacquire : Heap.acquire .caller u g with ⟨f | ⟨⟩, g₁⟩
    · rw [bind_of_error hacquire] at hread
      cases hread
    · rw [bind_of_ok hacquire] at hread
      obtain ⟨h₁, hacquire'⟩ := hc.exists_acquire (hcounted u hvalue) hacquire
      rw [bind_of_ok hacquire']
      cases hread
      rfl

/-- Where whatever a block holds has a count, its cells from one on are read at once as they are one
by one, up to the cell where a count overflows, if there is one. -/
theorem Heap.Calls.readEach (hb : h.block? b = some block)
    (hcounted : ∀ v ∈ block.stored, h.Counted v) {k i : Nat} (hk : i + k = block.size)
    (got : List V) (hc : h.Calls es g) :
    Ends (Pointer.readOn b k i got g)
      (fun all g' => ∃ vs, all = got.reverse ++ vs ∧
        (List.range' i k).mapM (Pointer.cells b block.size).getAt g = (.ok vs, g') ∧
        vs.length = k ∧ ∀ j v, vs[j]? = some v → (Heap.read b (i + j) h).1 = .ok v)
      fun f g' => h.Overflows (es.length + k) f ∧ ∃ vs g'', g' = g''.dropAll vs ∧
        (List.range' i k).mapM (Pointer.cells b block.size).getAt g = (.error f, g'') := by
  induction k generalizing i got es g with
  | zero => exact ends_pure ⟨[], (List.append_nil _).symm, rfl, rfl, nofun⟩
  | succ k ih =>
    have hlt : i < block.size := by omega
    have hvalues : (h.value? b i).toList.length ≤ 1 := by cases h.value? b i <;> simp
    have hcounted' : ∀ v, block.value? i = some v → h.Counted v := fun v hv =>
      hcounted v (Block.mem_stored_of_value? hv)
    have hends := hc.ends_read hb hlt hcounted'
    rw [List.range'_succ, List.mapM_cons, Pointer.getAt_eq hlt]
    rcases hread : Heap.read b i g with ⟨f | v, g₁⟩ <;> rw [hread] at hends
    · have hundo : ((Heap.read b i : Action V V).orElseUndo (·.dropAll got.reverse)) g =
          (.error f, g₁.dropAll got.reverse) := by
        rw [Attempt.orElseUndo, hread]
      have hoverflow : h.Overflows (es.length + (k + 1)) f :=
        Overflows.mono hends fun c => by omega
      exact ends_of_error (bind_of_error hundo) ⟨hoverflow, _, g₁, rfl, bind_of_error hread⟩
    · have hfirst := hc.read_fst hb hlt hcounted' hread
      obtain ⟨-, hc₁⟩ := hends
      have hundo : ((Heap.read b i : Action V V).orElseUndo (·.dropAll got.reverse)) g =
          (.ok v, g₁) := by
        rw [Attempt.orElseUndo, hread]
      show Ends ((_ >>= _ : Action V (List V)) g) _ _
      rw [bind_of_ok hundo, bind_of_ok hread]
      refine (ih (i := i + 1) (by omega) (v :: got) hc₁).mono ?_ ?_
      · rintro all g' ⟨vs, rfl, heach, rfl, hvs⟩
        refine ⟨v :: vs, ?_, bind_of_ok heach, rfl, fun j u hu => ?_⟩
        · rw [List.reverse_cons, List.append_assoc]
          rfl
        · cases j with
          | zero =>
            cases hu
            exact hfirst
          | succ j =>
            rw [Nat.add_comm j, ← Nat.add_assoc]
            exact hvs j u hu
      · rintro f g' ⟨hf, vs, g'', rfl, heach⟩
        refine ⟨hf.mono fun c => ?_, vs, g'', rfl, bind_of_error heach⟩
        rw [List.length_append, acquiring, List.length_map]
        omega

/-- All cells are read at once as they are one by one, up to the cell where a count overflows, if
there is one. -/
theorem Pointer.toList_agrees (hi : h.Intact) {n : Nat} (hb : h.Leads (.block b n)) :
    Ends ((cells b n).toList h)
      (fun vs g => (List.range n).mapM (cells b n).getAt h = (.ok vs, g) ∧ vs.length = n ∧
        ∀ i v, vs[i]? = some v → ((cells b n).getAt i h).1 = .ok v)
      fun f g => h.Overflows n f ∧ ∃ vs g', g = g'.dropAll vs ∧
        (List.range n).mapM (cells b n).getAt h = (.error f, g') := by
  obtain ⟨block, hb, rfl⟩ := hb
  have hcounted := fun v hv => hi.counted_of_stored hb (v := v) hv
  have heach := (Heap.Calls.refl h).readEach hb hcounted (Nat.zero_add block.size) []
  rw [toList_eq, List.range_eq_range']
  refine heach.mono ?_ fun f g hf => by simpa using hf
  rintro all g ⟨vs, rfl, heach, hlength, hvs⟩
  refine ⟨heach, hlength, fun i v hv => ?_⟩
  have hlt : i < block.size := hlength ▸ (List.getElem?_eq_some_iff.mp hv).1
  rw [getAt_eq hlt, ← hvs i v hv, Nat.zero_add]

end

/-! ## Values of expressions -/

variable {E : Type} [Expression E V] {α : Type} {s : Session V} {e : E}

namespace Heap

theorem dropAll_singleton (h : Heap V) (v : V) : h.dropAll [v] = h.drop v := by
  rw [dropAll_cons, dropAll_nil]

/-- Default values own nothing that could be given back. -/
theorem dropAll_default (h : Heap V) (n : Nat) : h.dropAll (List.replicate n default) = h := by
  induction n with
  | zero => exact dropAll_nil h
  | succ n ih =>
    have hdrop : h.drop default = h := by
      rw [drop, Task.dropsOf, Host.ref_default]
      exact settle_nil h
    rw [List.replicate_succ, dropAll_cons, hdrop, ih]

end Heap

namespace Act

omit [Host V] [Expression E V] in
theorem perform_apply {act : Action V α} {out : Except Fault α} {g : Heap V}
    (hact : act s.heap = (out, g)) :
    perform act s = (out.mapError .fault, { s with heap := g }) := by
  show ((act s.heap).1.mapError _, Session.mk _ (act s.heap).2) = _
  rw [hact]

theorem value_apply {out : Except Failure V} {g : Heap V}
    (hv : Expression.eval s.toRegisters e s.heap = (out, g)) :
    value e s = (out, { s with heap := g }) := by
  show ((Expression.eval s.toRegisters e s.heap).1, { s with heap := _ }) = _
  rw [hv]

theorem withValue_of_ok {v : V} {g : Heap V}
    (hv : Expression.eval s.toRegisters e s.heap = (.ok v, g)) (body : V → Act V α) :
    withValue e body s = (body v).andFinally (·.mapHeap (·.drop v)) { s with heap := g } :=
  bind_of_ok (value_apply hv)

theorem withValue_of_error {f : Failure} {g : Heap V}
    (hv : Expression.eval s.toRegisters e s.heap = (.error f, g)) (body : V → Act V α) :
    withValue e body s = (.error f, { s with heap := g }) :=
  bind_of_error (value_apply hv)

/-- What is done with a value starts with the same owners. -/
theorem withValue_congr {body body' : V → Act V α}
    (hbody : ∀ v g, body v { s with heap := g } = body' v { s with heap := g }) :
    withValue e body s = withValue e body' s := by
  rcases hv : Expression.eval s.toRegisters e s.heap with ⟨f | v, g⟩
  · rw [withValue_of_error hv, withValue_of_error hv]
  · rw [withValue_of_ok hv, withValue_of_ok hv, andFinally_apply, andFinally_apply, hbody]

/-- The values of one expression are its value. -/
theorem values_singleton (e : E) :
    values [e] = (do let v ← value e; pure [v] : Act V (List V)) := by
  funext s
  have hundo : (Expression.eval s.toRegisters e).orElseUndo (·.dropAll []) =
      Expression.eval s.toRegisters e := by
    funext h
    rw [orElseUndo]
    rcases Expression.eval s.toRegisters e h with ⟨f | v, g⟩
    · exact congrArg (Prod.mk _) g.dropAll_nil
    · rfl
  have hvalues : values [e] s = run (evalAll s.toRegisters [] [e]) s := rfl
  rw [hvalues, evalAll, List.reverse_nil, hundo]
  rcases hv : Expression.eval s.toRegisters e s.heap with ⟨f | v, g⟩
  · rw [bind_of_error (value_apply hv), run, bind_of_error hv]
  · rw [bind_of_ok (value_apply hv), run, bind_of_ok hv]
    rfl

theorem withValues_singleton (e : E) (body : List V → Act V α) :
    withValues [e] body = withValue e fun v => body [v] := by
  rw [withValues, values_singleton, bind_assoc]
  simp only [pure_bind, Heap.dropAll_singleton]
  rfl

/-- An expression for the default value, written down again and again. -/
theorem evalAll_default {r : Registers V}
    (he : ∀ h, Expression.eval r e h = (.ok (default : V), h)) (n : Nat) (got : List V)
    (h : Heap V) :
    evalAll r got (List.replicate n e) h = (.ok (got.reverse ++ List.replicate n default), h) := by
  induction n generalizing got with
  | zero =>
    rw [List.replicate_zero, List.replicate_zero, List.append_nil]
    rfl
  | succ n ih =>
    have hundo : (Expression.eval r e).orElseUndo (·.dropAll got.reverse) h = (.ok default, h) := by
      rw [orElseUndo, he]
    rw [List.replicate_succ]
    refine (bind_of_ok hundo).trans ((ih (default :: got)).trans ?_)
    rw [List.reverse_cons, List.append_assoc]
    rfl

end Act

/-! ## Commands -/

namespace Session

/-- A collection from a count is one from so many expressions for the default value. -/
theorem step_allocateCount (name : String) (n : Nat)
    (he : ∀ h, Expression.eval s.toRegisters e h = (.ok (default : V), h)) :
    s.step (.allocateCount name n : Command E) =
      s.step (.allocateValues name (List.replicate n e)) := by
  have hvs : Act.values (List.replicate n e) s = (.ok (List.replicate n default), s) := by
    show ((Act.evalAll s.toRegisters [] (List.replicate n e) s.heap).1, { s with heap := _ }) = _
    rw [Act.evalAll_default he]
    rfl
  refine Eq.symm ((bind_of_ok hvs).trans ?_)
  simp only [andFinally_apply, Heap.dropAll_default, ← Pointer.allocateCollection_count]
  rfl

/-- A single cell is a collection from one expression. -/
theorem step_allocate (name : String) (e : E) (s : Session V) :
    s.step (.allocate name e) = s.step (.allocateValues name [e]) := by
  show Act.withValue e _ s = Act.withValues [e] _ s
  simp only [Act.withValues_singleton, Pointer.allocateCollection_singleton]

variable {name : String} {b : BlockId}

/-- A single cell is read as the first of a block. -/
theorem step_get (hname : s.handles.lookup name = some (.cells b 1)) (keep : Option String) :
    s.step (.get name keep : Command E) = s.step (.getAt name 0 keep : Command E) := by
  have hhandle := Act.handle_apply hname
  refine (bind_of_ok hhandle).trans (Eq.symm ((bind_of_ok hhandle).trans ?_))
  rw [Pointer.get_eq, Pointer.getAt_eq Nat.one_pos]

/-- A single cell is written as the first of a block. -/
theorem step_set (hname : s.handles.lookup name = some (.cells b 1)) (e : E) :
    s.step (.set name e) = s.step (.setAt name 0 e) := by
  have hhandle := Act.handle_apply hname
  have hbody : ∀ v g, Act.setThrough name (.cells b 1) v { s with heap := g } =
      Act.perform ((Pointer.cells b 1).setAt 0 v) { s with heap := g } := by
    intro v g
    rw [Act.setThrough_apply ((Pointer.single_agrees b g).2 v)]
    show (_, Session.mk { s.toRegisters with handles := Entries.put name _ s.handles } _) = _
    rw [Entries.put_of_lookup hname]
    rfl
  refine (bind_of_ok hhandle).trans (Eq.trans ?_ (bind_of_ok hhandle).symm)
  exact bind_congr_left (Act.withValue_congr hbody)

/-- A null pointer makes way for another one without a trace. -/
theorem made_of_null (hname : s.handles.lookup name = some .null) (p : Pointer) :
    Act.made name p s = (.ok (.made p (p.refCount s.heap)),
      { s with handles := Entries.put name p s.handles }) := by
  have hlook : (Attempt.look (·.handles.lookup name) : Act V (Option Pointer)) s =
      (.ok (some .null), s) := by
    rw [look_apply, hname]
  have hdrop : s.heap.dropPointer .null = s.heap := Heap.settle_nil s.heap
  have hnamed : Act.nameHandle name p s =
      (.ok (), { s with handles := Entries.put name p s.handles }) := by
    refine (bind_of_ok hlook).trans ?_
    show (Except.ok (), Session.mk _ (s.heap.dropPointer .null)) = _
    rw [hdrop]
  exact bind_of_ok hnamed

/-- What both ways come to once there is a value. -/
theorem setThrough_null_agrees (hname : s.handles.lookup name = some .null) (v : V) :
    let written := Act.setThrough name .null v s
    let made := (Act.perform (Pointer.allocate v) >>= Act.made name) s
    (∀ f, written.1 = .error f ↔ made.1 = .error f) ∧
      ∀ a, made.1 = .ok a → ∃ b before,
        Related (Heap.Extra (.upgraded b) (.allocated 1 b :: before)) made.2 written.2 ∧
          written.2.handles = Entries.put name (.cells b 1) s.handles := by
  obtain ⟨hfails, hsucceeds⟩ := Pointer.set_null_agrees v s.heap
  rcases hmade : Pointer.allocate v s.heap with ⟨f | p, g⟩
  · rcases hset : Pointer.null.set v s.heap with ⟨⟨q, outcome⟩, g'⟩
    rw [hmade, hset] at hfails
    obtain rfl : outcome = .error f := (hfails f).mpr rfl
    rw [bind_of_error (Act.perform_apply hmade), Act.setThrough_apply hset]
    refine ⟨fun f' => ?_, nofun⟩
    show Except.error _ = _ ↔ _
    rw [Except.error.injEq, Except.error.injEq]
  · obtain ⟨rfl, g', hset, hextra⟩ := hsucceeds p g hmade
    have hnamed : ({ s with heap := g } : Session V).handles.lookup name = some .null := hname
    rw [bind_of_ok (Act.perform_apply hmade), Act.setThrough_apply hset, made_of_null hnamed]
    exact ⟨fun f => iff_of_false nofun nofun, fun a _ => ⟨_, _, ⟨rfl, hextra⟩, rfl⟩⟩

/-- Writing through a null handle fails as replacing it by a fresh cell does, and otherwise comes to
the same session, with the write told in addition. No other handle has changed. -/
theorem step_set_null (hname : s.handles.lookup name = some .null) (e : E) :
    let written := s.step (.set name e)
    let made := s.step (.allocate name e)
    (∀ f, written.1 = .error f ↔ made.1 = .error f) ∧
      ∀ a, made.1 = .ok a → ∃ b before,
        Related (Heap.Extra (.upgraded b) (.allocated 1 b :: before)) made.2 written.2 ∧
          written.2.handles = Entries.put name (.cells b 1) s.handles := by
  intro written made
  have hwritten : written =
      (Act.withValue e (Act.setThrough name .null) >>= fun _ => pure .done) s :=
    bind_of_ok (Act.handle_apply hname)
  have hmade : made =
      Act.withValue e (fun v => Act.perform (Pointer.allocate v) >>= Act.made name) s := rfl
  rcases hv : Expression.eval s.toRegisters e s.heap with ⟨f | v, g⟩
  · rw [hwritten, hmade, bind_of_error (Act.withValue_of_error hv _), Act.withValue_of_error hv]
    exact ⟨fun _ => Iff.rfl, nofun⟩
  · have hnamed : ({ s with heap := g } : Session V).handles.lookup name = some .null := hname
    obtain ⟨hfails, hsucceeds⟩ := setThrough_null_agrees hnamed v
    rw [hmade, Act.withValue_of_ok hv, andFinally_apply, hwritten]
    rcases hset : Act.setThrough name .null v { s with heap := g } with ⟨f | u, t⟩ <;>
      rw [hset] at hfails hsucceeds
    · have hfailed : Act.withValue e (Act.setThrough name .null) s =
          (.error f, t.mapHeap (·.drop v)) := by
        rw [Act.withValue_of_ok hv, andFinally_apply, hset]
      rw [bind_of_error hfailed]
      refine ⟨fun f' => ?_, fun a ha => ?_⟩
      · rw [← hfails f', Except.error.injEq, Except.error.injEq]
      · cases ha.symm.trans ((hfails f).mp rfl)
    · have hdone : Act.withValue e (Act.setThrough name .null) s =
          (.ok u, t.mapHeap (·.drop v)) := by
        rw [Act.withValue_of_ok hv, andFinally_apply, hset]
      rw [bind_of_ok hdone]
      refine ⟨fun f' => iff_of_false nofun fun hf => ?_, fun a ha => ?_⟩
      · cases (hfails f').mpr hf
      · obtain ⟨b, before, hrelated, hhandles⟩ := hsucceeds a ha
        exact ⟨b, before, ⟨hrelated.1, (Heap.congruence_extra _ _).drop v hrelated.2⟩, hhandles⟩

end Session

/-! ## Reachable sessions -/

/-- The ways to do something with pointers and values agree on the heap. -/
structure Heap.Agrees (h : Heap V) : Prop where
  /-- a collection from a count is one from so many default values -/
  counted : ∀ n, Pointer.allocateCollection (.count n) h =
    Pointer.allocateCollection (.values (List.replicate n default)) h
  /-- where there is no room, neither of them is made -/
  refused : ∀ n e, h.shortage? n = some e →
    Pointer.allocateCollection (.count n) h = (.error (.error e), h)
  /-- elsewhere it is a fresh block with one reference, every cell of which was set once -/
  defaulted : ∀ n, h.shortage? n = none → ∃ g,
    Pointer.allocateCollection (.count n) h = (.ok (.cells h.blocks.length n), g) ∧
      g.count h.blocks.length = 1 ∧ (h.addBlock n).Defaulted h.blocks.length n 0 g
  /-- a single cell is a collection of one -/
  single : ∀ v, Pointer.allocate v h = Pointer.allocateCollection (.values [v]) h
  /-- a write through a null pointer fails as making a cell does -/
  fails : ∀ v f, (Pointer.null.set v h).1.2 = .error f ↔ (Pointer.allocate v h).1 = .error f
  /-- otherwise it comes to the same pointer and heap, and is told in addition -/
  upgrades : ∀ v p g, Pointer.allocate v h = (.ok p, g) → ∃ b g', p = .cells b 1 ∧
    Pointer.null.set v h = ((p, .ok ()), g') ∧
      g.Extra (.upgraded b) (.allocated 1 b :: h.trace) g'
  /-- a single cell is read and written as the first of a block -/
  first : ∀ p : Pointer, p ≠ .null → p.isCollection = false → (∀ r, p.ref = some r → h.Leads r) →
    p.get h = p.getAt 0 h ∧ ∀ v, p.set v h = ((p, (p.setAt 0 v h).1), (p.setAt 0 v h).2)
  /-- all cells are read at once as they are one by one: to the same values and heap, or up to the
  cell where a count overflows, and then what was read is dropped -/
  all : ∀ p : Pointer, p ≠ .null → (∀ r, p.ref = some r → h.Leads r) →
    Ends (p.toList h)
      (fun vs g => (List.range p.size).mapM p.getAt h = (.ok vs, g) ∧ vs.length = p.size ∧
        ∀ i v, vs[i]? = some v → (p.getAt i h).1 = .ok v)
      fun f g => h.Overflows p.size f ∧ ∃ vs g', g = g'.dropAll vs ∧
        (List.range p.size).mapM p.getAt h = (.error f, g')

/-- So they do on every intact heap. -/
theorem Heap.Intact.agrees (hi : h.Intact) : h.Agrees where
  counted n := by rw [Pointer.allocateCollection_count]
  refused n e hn := Pointer.allocateCollection_of_refused hn
  defaulted n hn := by
    obtain ⟨g, hmade, hd⟩ := Pointer.exists_allocateCollection_count hn
    refine ⟨g, hmade, ?_, hd⟩
    rw [hd.count, Heap.count, block?_addBlock, if_pos rfl]
    rfl
  single v := by rw [Pointer.allocateCollection_singleton]
  fails v := (Pointer.set_null_agrees v h).1
  upgrades v p g hmade := by
    obtain ⟨hp, g', hset, hextra⟩ := (Pointer.set_null_agrees v h).2 p g hmade
    exact ⟨_, g', hp, hset, hextra⟩
  first p hp hsingle hleads := by
    cases p with
    | null => exact absurd rfl hp
    | cells b n =>
      obtain ⟨block, -, hn⟩ := hleads _ rfl
      obtain rfl := Pointer.eq_one_of_single hsingle hn
      exact Pointer.single_agrees b h
  all p hp hleads := by
    cases p with
    | null => exact absurd rfl hp
    | cells b n => exact Pointer.toList_agrees hi (hleads _ rfl)

/-- The ways to do something with the handles of a session agree. -/
structure Session.Agrees (E : Type) [Expression E V] (s : Session V) : Prop where
  /-- they do for all pointers and values -/
  heap : s.heap.Agrees
  /-- handles lead to blocks -/
  handles : ∀ name p, s.handles.lookup name = some p → ∀ r, p.ref = some r → s.heap.Leads r
  /-- a collection from a count is one from so many expressions for the default value -/
  counted : ∀ name n (e : E),
    (∀ h, Expression.eval s.toRegisters e h = (.ok (default : V), h)) →
      s.step (.allocateCount name n : Command E) =
        s.step (.allocateValues name (List.replicate n e))
  /-- a single cell is a collection from one expression -/
  single : ∀ name (e : E), s.step (.allocate name e) = s.step (.allocateValues name [e])
  /-- writing through a null handle fails as replacing it by a fresh cell does -/
  fails : ∀ name (e : E) f, s.handles.lookup name = some .null →
    ((s.step (.set name e)).1 = .error f ↔ (s.step (.allocate name e)).1 = .error f)
  /-- otherwise it comes to the same session, and is told in addition; the other handles stay what
  they are -/
  upgrades : ∀ name (e : E) a, s.handles.lookup name = some .null →
    (s.step (.allocate name e)).1 = .ok a → ∃ b before,
      Related (Heap.Extra (.upgraded b) (.allocated 1 b :: before)) (s.step (.allocate name e)).2
          (s.step (.set name e)).2 ∧
        (s.step (.set name e)).2.handles.lookup name = some (.cells b 1) ∧
        ∀ other ≠ name, (s.step (.set name e)).2.handles.lookup other = s.handles.lookup other
  /-- a single cell is read and written as the first of a block -/
  first : ∀ name p (e : E) keep, s.handles.lookup name = some p → p ≠ .null →
    p.isCollection = false →
      s.step (.get name keep : Command E) = s.step (.getAt name 0 keep : Command E) ∧
        s.step (.set name e) = s.step (.setAt name 0 e)

/-- So they do in every session in order in which no count is zero. -/
theorem Session.InOrder.agrees [Faced V] {w : Written V} (hs : s.InOrder w)
    (hcounts : ∀ b block, s.heap.block? b = some block → 0 < block.count) : s.Agrees E := by
  have hheld : ∀ v ∈ s.heap.held, s.heap.LeadsFrom v := fun _ => hs.sound.leads_held
  have hhandles : ∀ name p, s.handles.lookup name = some p → ∀ r, p.ref = some r →
      s.heap.Leads r := by
    intro name p hname r hr
    cases p with
    | null => cases hr
    | cells b n =>
      cases hr
      have hmem := Registers.keeps_handle (le_refl s.owners) hname b n rfl
      exact hs.sound.leads (Ledger.mem_refs_of_owned hmem)
  refine ⟨Heap.Intact.agrees ⟨hcounts, hheld⟩, hhandles, fun name n e => step_allocateCount name n,
    fun name e => step_allocate name e s, fun name e f hname => (step_set_null hname e).1 f, ?_, ?_⟩
  · intro name e a hname hmade
    obtain ⟨b, before, hrelated, hput⟩ := (step_set_null hname e).2 a hmade
    refine ⟨b, before, hrelated, ?_, fun other hother => ?_⟩
    · rw [hput, Entries.lookup_put_self]
    · rw [hput, Entries.lookup_put_of_ne hother]
  · intro name p e keep hname hp hsingle
    cases p with
    | null => exact absurd rfl hp
    | cells b n =>
      obtain ⟨block, -, hn⟩ := hhandles name _ hname _ rfl
      obtain rfl := Pointer.eq_one_of_single hsingle hn
      exact ⟨step_get hname keep, step_set hname e⟩

/-- In every session, of values or of any host, that a careful run reaches and in which no count is
zero, different ways to make, write and read cells agree: they fail alike, and otherwise they come
to the same results and to the same heap, which tells the same, but for the write through a null
pointer that is told in addition. -/
theorem ways_agree :
    (∀ {s : Session Value}, Reached Session.stepValue ValueCommand.Careful s →
      (∀ b block, s.heap.block? b = some block → 0 < block.count) → s.Agrees Term) ∧
    ∀ {V E : Type} [Host V] [Faced V] [Expression E V] [Meaning E] [Faithful E V] {s : Session V},
      Reached (Session.step (E := E)) Command.Careful s →
        (∀ b block, s.heap.block? b = some block → 0 < block.count) → s.Agrees E := by
  constructor
  · intro s hs hcounts
    obtain ⟨w, hw⟩ := hs.inOrder
    exact hw.agrees hcounts
  · intro V E _ _ _ _ _ s hs hcounts
    have hnothing : Lasting fun _ : Heap V => True :=
      ⟨fun _ => trivial, fun _ _ _ => trivial, fun _ _ _ => trivial⟩
    obtain ⟨w, hw, -⟩ := hs.lasts_step hnothing
    exact hw.agrees hcounts

omit [Host V] in
/-- No count is zero if none is in the list of blocks. -/
theorem Heap.counts_of_all (hall : h.blocks.all (·.all (0 < ·.count)) = true) (b : BlockId)
    (block : Block V) (hb : h.block? b = some block) : 0 < block.count := by
  have hmem := List.mem_of_getElem? (block?_eq_some_iff.mp hb)
  exact of_decide_eq_true (List.all_eq_true.mp hall _ hmem)

/-- Two null handles, one of which is written through with a copy of a handle: it gets a cell, and
the other one stays null. The two cells of a collection are read at once as they are one by one. And
where no cell of watched numbers can be made, the write reports what making a cell reports. -/
theorem null_write_agrees :
    let s := Session.runValue [.common (.allocateCount "a" 2), .common (.null "m"),
      .common (.null "n")] (.empty (.ofMemory 100))
    let t := Session.run [.allocate "m" (Tracked.Term.literal 7), .null "n", .configure ⟨some 1⟩]
      (.empty (.ofMemory 100))
    let written := (s.step (.set "n" (Term.handle "a"))).2
    (∃ b, written.handles.lookup "n" = some (.cells b 1)) ∧
      written.handles.lookup "m" = some .null ∧
      (∃ vs g, (Pointer.cells 0 2).toList s.heap = (.ok vs, g) ∧
        (List.range 2).mapM (Pointer.cells 0 2).getAt s.heap = (.ok vs, g)) ∧
      ∃ f, (t.step (.allocate "n" (Tracked.Term.literal 5))).1 = .error f ∧
        (t.step (.set "n" (Tracked.Term.literal 5))).1 = .error f := by
  intro s t written
  have hs : Reached Session.stepValue ValueCommand.Careful s :=
    (((Reached.start _).step trivial).step trivial).step trivial
  have ht : Reached (Session.step (E := Tracked.Term)) Command.Careful t :=
    (((Reached.start _).step trivial).step trivial).step trivial
  have hagrees := ways_agree.1 hs (Heap.counts_of_all (by decide +kernel))
  have hagrees' := ways_agree.2 ht (Heap.counts_of_all (by decide +kernel))
  have hok : (s.step (.allocate "n" (Term.handle "a"))).1.isOk = true := by decide +kernel
  have herror : (t.step (.allocate "n" (Tracked.Term.literal 5))).1.isOk = false := by
    decide +kernel
  rcases hmade : (s.step (.allocate "n" (Term.handle "a"))).1 with f | a
  · rw [hmade] at hok
    cases hok
  rcases hrefused : (t.step (.allocate "n" (Tracked.Term.literal 5))).1 with f | a
  · obtain ⟨b, before, -, hn, hothers⟩ :=
      hagrees.upgrades "n" _ a (by decide +kernel) hmade
    have hm : s.handles.lookup "m" = some .null := by decide +kernel
    have ha : s.handles.lookup "a" = some (.cells 0 2) := by decide +kernel
    have hread : ((Pointer.cells 0 2).toList s.heap).1.isOk = true := by decide +kernel
    have hall := hagrees.heap.all (.cells 0 2) Pointer.noConfusion (hagrees.handles "a" _ ha)
    rcases hlist : (Pointer.cells 0 2).toList s.heap with ⟨fault | vs, g⟩ <;>
      rw [hlist] at hread hall
    · cases hread
    refine ⟨⟨b, hn⟩, (hothers "m" (by decide)).trans hm, ⟨vs, g, rfl, hall.1⟩, f, rfl, ?_⟩
    exact (hagrees'.fails "n" _ f (by decide +kernel)).mpr hrefused
  · rw [hrefused] at herror
    cases herror

end CountedCells

import CountedCells.Proofs.Orderly
import CountedCells.Proofs.Unwinding

/-!
# Calls: which references an operation takes and gives back

Whenever a reference to a value is taken or given back, the host is called, and the trace tells of
it. A heap is `Intact` if every block has a count and whatever is held leads somewhere, as in every
session that a steady run reaches. On an intact heap an operation that gets past its checks is
served (`Operation.served`): it takes the references listed by `Operation.acquires`, which is one
for each set cell that is read and one for each cell that is written, and none is given back unless
a cell is overwritten. There is one thing that can come in between: a count `Overflows` if it cannot
be raised as often as the operation has to raise it.

While an operation reads, nothing changes but counts, which go up, and the trace; `Heap.Calls` says
so, with the calls that were made. Filling a fresh block changes its cells as well, but these were
unset, so nothing is given back either.
-/

namespace CountedCells

open Attempt

variable {V : Type}

/-- The event is a call of the host: a reference to a value was taken or given back. -/
def Event.isCall : Event V → Bool
  | .acquired _ _ _ | .disowned _ _ _ => true
  | _ => false

/-- A cell gave a reference back. -/
def Event.FromCell (e : Event V) : Prop := ∃ v st, e = .disowned .cell v st

/-- How many of the values point to the block. -/
def Host.pointersTo [Host V] (b : BlockId) (vs : List V) : Nat :=
  vs.countP fun v => (Host.ref v).any (·.block? = some b)

namespace Heap

/-- The calls of the host so far, the latest first. -/
def calls (h : Heap V) : List (Event V) := h.trace.filter Event.isCall

/-- The calls for references that are taken to these values now. -/
def acquiring (h : Heap V) (holder : Holder) (vs : List V) : List (Event V) :=
  vs.map fun v => .acquired holder v h.stats

/-- The fault is that the count of a block cannot be raised so many times. -/
def Overflows (h : Heap V) (k : Nat) (f : Fault) : Prop :=
  ∃ b, f = .overflow b ∧ Config.countRange ≤ h.count b + k

/-- One heap is as another one was, but for references that were taken: no content is another, these
calls were made, in order, and no count is lower, or higher by more than there were calls. -/
structure Calls (h : Heap V) (es : List (Event V)) (g : Heap V) : Prop where
  /-- the contents of cells -/
  contents : g.contents? = h.contents?
  /-- the counts of blocks -/
  counts : ∀ b, h.count b ≤ g.count b
  /-- they have not grown much -/
  growth : ∀ b, g.count b ≤ h.count b + es.length
  /-- the statistics -/
  stats : g.stats = h.stats
  /-- the calls -/
  calls : g.calls = es.reverse ++ h.calls

theorem Overflows.mono {h g : Heap V} {k k' : Nat} {f : Fault} (hf : g.Overflows k f)
    (hcounts : ∀ b, g.count b + k ≤ h.count b + k') : h.Overflows k' f := by
  obtain ⟨b, rfl, hb⟩ := hf
  exact ⟨b, rfl, Nat.le_trans hb (hcounts b)⟩

namespace Calls

variable {h g k : Heap V} {es es' : List (Event V)}

theorem refl (h : Heap V) : h.Calls [] h :=
  ⟨rfl, fun _ => Nat.le_refl _, fun _ => Nat.le_refl _, rfl, rfl⟩

theorem trans (hc : h.Calls es g) (hc' : g.Calls es' k) : h.Calls (es ++ es') k where
  contents := hc'.contents.trans hc.contents
  counts b := Nat.le_trans (hc.counts b) (hc'.counts b)
  growth b := by
    have hfirst := hc.growth b
    have hsecond := hc'.growth b
    rw [List.length_append]
    omega
  stats := hc'.stats.trans hc.stats
  calls := by rw [hc'.calls, hc.calls, List.reverse_append, List.append_assoc]

/-- A block is still there. -/
theorem exists_block (hc : h.Calls es g) {b : BlockId} {block : Block V}
    (hb : h.block? b = some block) :
    ∃ block', g.block? b = some block' ∧ block'.contents = block.contents ∧
      block'.size = block.size := by
  have hthere : g.contents? b = some block.contents := by rw [hc.contents, contents?_eq hb]
  obtain ⟨block', hb', hcontents⟩ := Option.map_eq_some_iff.mp hthere
  refine ⟨block', hb', hcontents, ?_⟩
  rw [← block'.length_contents, hcontents, block.length_contents]

/-- What overflows now, after these calls, would have done so before with as many more. -/
theorem overflows (hc : h.Calls es g) {n : Nat} {f : Fault} (hf : g.Overflows n f) :
    h.Overflows (es.length + n) f :=
  hf.mono fun b => by
    have hgrowth := hc.growth b
    omega

theorem value?_eq (hc : h.Calls es g) (b : BlockId) (i : Nat) : g.value? b i = h.value? b i :=
  value?_eq_of_contents? (congrFun hc.contents b) i

end Calls

theorem count_le_setCount {h : Heap V} {b : BlockId} {n : Nat} (hn : h.count b ≤ n) (c : BlockId) :
    h.count c ≤ (h.setCount b n).count c := by
  rw [count, count, block?_setCount]
  split
  · rename_i hc
    subst hc
    rcases hb : h.block? c with - | block
    · exact Nat.le_refl _
    · rw [Heap.count_eq hb] at hn
      exact hn
  · exact Nat.le_refl _

theorem setCount_le_count {h : Heap V} {b : BlockId} {n k : Nat} (hn : n ≤ h.count b + k)
    (c : BlockId) : (h.setCount b n).count c ≤ h.count c + k := by
  rw [count, count, block?_setCount]
  split
  · rename_i hc
    subst hc
    rcases hb : h.block? c with - | block
    · exact Nat.zero_le _
    · rw [Heap.count_eq hb] at hn
      exact hn
  · exact Nat.le_add_right _ _

theorem count_setValue (h : Heap V) (b : BlockId) (i : Nat) (o : Option V) (c : BlockId) :
    (h.setValue b i o).count c = h.count c := by
  rw [count, count, block?_setValue]
  split
  · rcases h.block? c with - | block <;> simp
  · rfl

theorem contents?_setValue (h : Heap V) (b : BlockId) (i : Nat) (o : Option V) :
    (h.setValue b i o).contents? b = (h.contents? b).map (·.set i o) := by
  rw [contents?, block?_setValue, if_pos rfl, contents?, Option.map_map, Option.map_map]
  congr 1
  funext block
  exact block.contents_withValue i o

variable [Host V]

/-! ## Taking references -/

/-- What the value points to has a count, if it is a pointer. -/
def Counted (h : Heap V) (v : V) : Prop := ∀ b n, Host.ref v = some (.block b n) → 0 < h.count b

theorem Counted.mono {h g : Heap V} {v : V} (hv : h.Counted v)
    (hcounts : ∀ b, h.count b ≤ g.count b) : g.Counted v :=
  fun b n hr => Nat.lt_of_lt_of_le (hv b n hr) (hcounts b)

theorem pointersTo_cons (b : BlockId) (v : V) (vs : List V) :
    Host.pointersTo b (v :: vs) = Host.pointersTo b vs + Host.pointersTo b [v] := by
  rw [Host.pointersTo, Host.pointersTo, Host.pointersTo, List.countP_cons, List.countP_cons,
    List.countP_nil, Nat.zero_add]

theorem pointersTo_of_ref {b n : Nat} {v : V} (hr : Host.ref v = some (.block b n)) (c : BlockId) :
    Host.pointersTo c [v] = if b = c then 1 else 0 := by
  simp [Host.pointersTo, hr, Ref.block?]

/-- The block has a count if one of the values points to it. -/
theorem count_pos_of_pointersTo {h : Heap V} {vs : List V} (hvs : ∀ v ∈ vs, h.Counted v)
    {b : BlockId} (hb : 0 < Host.pointersTo b vs) : 0 < h.count b := by
  obtain ⟨v, hv, hany⟩ := List.countP_pos_iff.mp hb
  obtain ⟨r, hr, hblock⟩ := (Option.any_eq_true _ _).mp hany
  cases r with
  | payload p => cases of_decide_eq_true hblock
  | block c n =>
    cases of_decide_eq_true hblock
    exact hvs v hv b n hr

/-- The count of each block can be raised once for each of the values that point to it. -/
def Uncrowded (h : Heap V) (vs : List V) : Prop :=
  ∀ b, 0 < Host.pointersTo b vs → h.count b + Host.pointersTo b vs < Config.countRange

/-- The fault is that the count of a block cannot be raised once for each of the values that point
to it. -/
def OverflowsFor (h : Heap V) (vs : List V) (f : Fault) : Prop :=
  ∃ b, f = .overflow b ∧ 0 < Host.pointersTo b vs ∧
    Config.countRange ≤ h.count b + Host.pointersTo b vs

/-- Where counts can be raised for the values, an operation succeeds that overflows otherwise. -/
theorem Uncrowded.exists_ok {h : Heap V} {vs : List V} (hvs : h.Uncrowded vs) {α : Type}
    {out : Except Fault α × Heap V} {Q : α → Heap V → Prop}
    (hends : Ends out Q fun f _ => h.OverflowsFor vs f) : ∃ a g, out = (.ok a, g) ∧ Q a g := by
  obtain ⟨f | a, g⟩ := out
  · obtain ⟨b, -, hpos, hb⟩ := hends
    exact absurd (hvs b hpos) (Nat.not_lt.mpr hb)
  · exact ⟨a, g, rfl, hends⟩

/-- A count is raised at most once for each value. -/
theorem OverflowsFor.overflows {h : Heap V} {vs : List V} {f : Fault} (hf : h.OverflowsFor vs f) :
    h.Overflows vs.length f := by
  obtain ⟨b, rfl, -, hb⟩ := hf
  exact ⟨b, rfl, hb.trans (Nat.add_le_add_left List.countP_le_length _)⟩

theorem OverflowsFor.mono {h g : Heap V} {vs ws : List V} {f : Fault} (hf : g.OverflowsFor vs f)
    (hmore : ∀ b, Host.pointersTo b vs ≤ Host.pointersTo b ws)
    (hcounts : ∀ b, 0 < Host.pointersTo b vs →
      g.count b + Host.pointersTo b vs ≤ h.count b + Host.pointersTo b ws) :
    h.OverflowsFor ws f := by
  obtain ⟨b, rfl, hpos, hb⟩ := hf
  exact ⟨b, rfl, hpos.trans_le (hmore b), hb.trans (hcounts b hpos)⟩

omit [Host V] in
/-- Where there is a count, a reference is taken unless the count is the highest. -/
theorem ends_retainOr_of_counted {g : Heap V} {b : BlockId} (hb : 0 < g.count b) (f : Fault) :
    Ends (Heap.retainOr f b g) (fun _ g' => g' = g.setCount b (g.count b + 1))
      fun e _ => e = .overflow b ∧ g.Crowded b := by
  rw [Heap.retainOr_of_pos hb]
  rcases Nat.lt_or_ge (g.count b + 1) Config.countRange with hroom | hfull
  · exact ends_of_ok (Heap.raise_of_lt hroom) rfl
  · exact ends_of_error (Heap.raise_of_crowded hfull) ⟨rfl, hfull⟩

/-- A value is copied where there is a count. -/
theorem ends_copy_of_counted {g : Heap V} {v : V} (hv : g.Counted v) :
    Ends (Heap.copy v g)
      (fun _ g' => g'.contents? = g.contents? ∧
        (∀ b, g.count b ≤ g'.count b ∧ g'.count b ≤ g.count b + Host.pointersTo b [v]) ∧
        g'.stats = g.stats ∧ g'.calls = g.calls)
      fun f _ => g.OverflowsFor [v] f := by
  have hsame : ∀ b, g.count b ≤ g.count b ∧ g.count b ≤ g.count b + Host.pointersTo b [v] :=
    fun b => ⟨Nat.le_refl _, Nat.le_add_right _ _⟩
  rw [Heap.copy]
  rcases hr : Host.ref v with - | (⟨b, n⟩ | p)
  · exact ends_pure ⟨rfl, hsame, rfl, rfl⟩
  · have hone : Host.pointersTo b [v] = 1 := by rw [pointersTo_of_ref hr, if_pos rfl]
    refine (ends_retainOr_of_counted (hv b n hr) _).mono ?_ ?_
    · rintro - g' rfl
      refine ⟨contents?_setCount g b _, fun c => ⟨count_le_setCount (Nat.le_add_right _ _) c, ?_⟩,
        rfl, rfl⟩
      by_cases hc : c = b
      · rw [hc, hone]
        exact setCount_le_count (Nat.le_refl _) b
      · rw [count, block?_setCount, if_neg hc]
        exact Nat.le_add_right _ _
    · rintro f - ⟨rfl, hfull⟩
      exact ⟨b, rfl, by omega, by rwa [hone]⟩
  · exact ends_of_ok (a := ()) rfl ⟨rfl, hsame, rfl, rfl⟩

theorem ends_acquire_of_counted {g : Heap V} {v : V} (hv : g.Counted v) (holder : Holder) :
    Ends (Heap.acquire holder v g)
      (fun _ g' => g.Calls (g.acquiring holder [v]) g' ∧
        ∀ b, g'.count b ≤ g.count b + Host.pointersTo b [v])
      fun f _ => g.OverflowsFor [v] f := by
  refine (ends_copy_of_counted hv).bind fun _ g' hg' => ?_
  obtain ⟨hcontents, hcounts, hstats, hcalls⟩ := hg'
  have hgrowth (b : BlockId) : g'.count b ≤ g.count b + 1 :=
    (hcounts b).2.trans (Nat.add_le_add_left List.countP_le_length _)
  refine ends_update ⟨⟨hcontents, fun b => (hcounts b).1, hgrowth, hstats, ?_⟩,
    fun b => (hcounts b).2⟩
  show .acquired holder v g'.stats :: g'.calls = .acquired holder v g.stats :: g.calls
  rw [hstats, hcalls]

/-- Every block has a count, and whatever is held leads somewhere. -/
structure Intact (h : Heap V) : Prop where
  /-- the counts -/
  counts : ∀ b block, h.block? b = some block → 0 < block.count
  /-- the references of the values in cells and payloads -/
  leads : ∀ v ∈ h.held, h.LeadsFrom v

theorem Intact.counted {h : Heap V} (hi : h.Intact) {v : V} (hv : h.LeadsFrom v) : h.Counted v := by
  intro b n hr
  obtain ⟨block, hb, -⟩ := hv _ hr
  rw [Heap.count_eq hb]
  exact hi.counts b block hb

theorem Intact.counted_of_stored {h : Heap V} (hi : h.Intact) {b : BlockId} {block : Block V}
    (hb : h.block? b = some block) {v : V} (hv : v ∈ block.stored) : h.Counted v :=
  hi.counted (hi.leads v (mem_held.mpr (.inl ⟨b, block, hb, hv⟩)))

/-! ## Reading -/

variable {h g : Heap V} {es : List (Event V)} {b : BlockId} {block : Block V}

/-- Reading a set cell makes one call, and reading an unset one makes none. -/
theorem Calls.ends_read (hc : h.Calls es g) (hb : h.block? b = some block) {i : Nat}
    (hlt : i < block.size) (hcounted : ∀ v, block.value? i = some v → h.Counted v) :
    Ends (Heap.read b i g)
      (fun v g' => v = (h.value? b i).getD default ∧
        h.Calls (es ++ h.acquiring .caller (h.value? b i).toList) g')
      fun f _ => h.Overflows (es.length + (h.value? b i).toList.length) f := by
  obtain ⟨block', hb', -, hsize⟩ := hc.exists_block hb
  have htouch : g.touch b i = g := touch_eq hb' (hsize ▸ hlt)
  refine Ends.bind (R := fun _ g' => g' = g) (ends_update htouch) ?_
  rintro - g' rfl
  refine Ends.bind (R := fun o g'' => o = h.value? b i ∧ g'' = g')
    (ends_look ⟨hc.value?_eq b i, rfl⟩) ?_
  rintro o g'' ⟨rfl, rfl⟩
  rcases hv : h.value? b i with - | v
  · exact ends_pure ⟨rfl, by simpa [acquiring] using hc⟩
  · have hvalue : block.value? i = some v := by rwa [value?, hb, Option.bind_some] at hv
    have hacquire := ends_acquire_of_counted ((hcounted v hvalue).mono hc.counts) .caller
    refine Ends.bind (hacquire.mono (fun _ _ => id) fun _ _ hf => hc.overflows hf.overflows)
      fun _ g' hcalls => ends_pure ⟨rfl, ?_⟩
    rw [acquiring, ← hc.stats]
    exact hc.trans hcalls.1

/-- Reading the cells from one on makes a call for each that is set. -/
theorem Calls.ends_readOn (hb : h.block? b = some block)
    (hcounted : ∀ v ∈ block.stored, h.Counted v) {n i : Nat} (hn : i + n = block.size)
    (got : List V) (hc : h.Calls es g) :
    Ends (Pointer.readOn b n i got g)
      (fun _ g' => h.Calls
        (es ++ h.acquiring .caller ((block.contents.drop i).flatMap Option.toList)) g')
      fun f _ => h.Overflows
        (es.length + ((block.contents.drop i).flatMap Option.toList).length) f := by
  induction n generalizing i got es g with
  | zero =>
    have hdrop : block.contents.drop i = [] := by
      rw [List.drop_eq_nil_iff, block.length_contents]
      omega
    exact ends_pure (by simpa [hdrop, acquiring] using hc)
  | succ n ih =>
    have hlt : i < block.size := by omega
    have hlt' : i < block.contents.length := by rw [block.length_contents]; exact hlt
    have hvalue : h.value? b i = block.contents[i] := by
      rw [Heap.value?_eq hb, List.getElem?_eq_getElem hlt', Option.join_some]
    have hread := hc.ends_read hb hlt fun v hv => hcounted v (Block.mem_stored_of_value? hv)
    rw [List.drop_eq_getElem_cons hlt', List.flatMap_cons, ← hvalue]
    refine Ends.bind (hread.orElseUndo fun f _ hf => ?_) fun v g' hg' => ?_
    · refine hf.mono fun c => ?_
      rw [List.length_append]
      omega
    · refine (ih (i := i + 1) (by omega) (v :: got) hg'.2).mono (fun _ g'' hc' => ?_)
        fun f _ hf => hf.mono fun c => ?_
      · rwa [acquiring, acquiring, List.append_assoc, ← List.map_append] at hc'
      · rw [acquiring, List.length_append, List.length_append, List.length_map]
        omega

/-! ## Giving back -/

/-- A cascade that values from cells set off makes only calls that give back what cells held. -/
theorem calls_settle {ts : List (Task V)} (hts : ∀ holder v, .disown holder v ∈ ts → holder = .cell)
    (h : Heap V) :
    ∃ back, (h.settle ts).calls = back ++ h.calls ∧ ∀ e ∈ back, e.FromCell := by
  fun_induction settle ts h with
  | case1 h => exact ⟨[], rfl, List.forall_mem_nil _⟩
  | case2 h t ts ih =>
    -- what a task leads to drops references, or gives back the values of a block
    have hnow : (∃ back, (t.carryOut h).2.calls = back ++ h.calls ∧ ∀ e ∈ back, e.FromCell) ∧
        ∀ holder v, .disown holder v ∈ (t.carryOut h).1 → holder = .cell := by
      have hdrops (v : V) (holder : Holder) (u : V) : .disown holder u ∉ Task.dropsOf v := by
        simp [Task.dropsOf]
      cases t with
      | disown holder v =>
        obtain rfl := hts holder v List.mem_cons_self
        refine ⟨⟨[.disowned .cell v h.stats], rfl, ?_⟩, fun x u hu => absurd hu (hdrops v x u)⟩
        simp [Event.FromCell]
      | drop r =>
        cases r with
        | block b n =>
          have hexpect : (h.expect b n).calls = h.calls := by
            rw [expect]
            split <;> rfl
          have hquiet (g : Heap V) (hg : g.calls = h.calls) :
              ∃ back, g.calls = back ++ h.calls ∧ ∀ e ∈ back, e.FromCell :=
            ⟨[], hg, List.forall_mem_nil _⟩
          simp only [Task.carryOut]
          split
          · exact ⟨hquiet _ hexpect, by simp⟩
          · split
            · exact ⟨hquiet _ hexpect, by simp⟩
            · refine ⟨hquiet _ hexpect, fun x u hu => ?_⟩
              obtain ⟨u', -, heq⟩ := List.mem_map.mp hu
              cases heq
              rfl
            · exact ⟨hquiet _ hexpect, by simp⟩
        | payload p =>
          have hquiet : ∃ back, h.calls = back ++ h.calls ∧ ∀ e ∈ back, e.FromCell :=
            ⟨[], rfl, List.forall_mem_nil _⟩
          simp only [Task.carryOut]
          split
          · exact ⟨hquiet, by simp⟩
          · split
            · exact ⟨hquiet, by simp⟩
            · refine ⟨hquiet, fun x u hu => ?_⟩
              obtain ⟨v, -, hv⟩ := List.mem_flatMap.mp hu
              exact absurd hv (hdrops v x u)
            · exact ⟨hquiet, by simp⟩
    obtain ⟨⟨back, hback, hfrom⟩, htasks⟩ := hnow
    obtain ⟨back', hback', hfrom'⟩ := ih fun holder v hv =>
      (List.mem_append.mp hv).elim (htasks holder v) fun hv' =>
        hts holder v (List.mem_cons_of_mem t hv')
    refine ⟨back' ++ back, by rw [hback', hback, List.append_assoc], fun e he => ?_⟩
    exact (List.mem_append.mp he).elim (hfrom' e) (hfrom e)

/-- A pointer that is not the last one goes without a call. -/
theorem dropPointer_of_shared (hb : h.block? b = some block) (hcount : 2 ≤ block.count) :
    h.dropPointer (.cells b block.size) = h.setCount b (block.count - 1) := by
  obtain ⟨c, hc⟩ : ∃ c, block.count = c + 2 := ⟨block.count - 2, by omega⟩
  have hcarry : (Task.drop (.block b block.size) : Task V).carryOut h =
      ([], h.setCount b (c + 1)) := by
    simp only [Task.carryOut, expect_eq hb, hb, hc]
  show h.settle [.drop (.block b block.size)] = _
  rw [settle_cons, hcarry, hc]
  exact settle_nil _

/-! ## Storing -/

/-- Storing a value makes one call for it, and then others only if the cell gives something back. -/
theorem ends_store_of_counted (hb : h.block? b = some block) {i : Nat} (hi : i < block.size) {v : V}
    (hv : h.Counted v) :
    Ends (Heap.store b i v h)
      (fun _ g => ∃ back, g.calls = back ++ (h.acquiring .cell [v] ++ h.calls) ∧
        ∀ e ∈ back, e.FromCell)
      fun f _ => h.OverflowsFor [v] f := by
  refine (ends_acquire_of_counted hv .cell).bind fun _ h₁ hacquired => ?_
  obtain ⟨hcalls, -⟩ := hacquired
  obtain ⟨block₁, hb₁, -, hsize⟩ := hcalls.exists_block hb
  have hcells : ∀ holder u,
      .disown holder u ∈ (h₁.value? b i).toList.map (Task.disown .cell) → holder = .cell := by
    intro holder u hu
    obtain ⟨u', -, heq⟩ := List.mem_map.mp hu
    cases heq
    rfl
  obtain ⟨back, hback, hfrom⟩ := calls_settle hcells (h₁.setValue b i (some v))
  refine ends_update ⟨back, ?_, hfrom⟩
  rw [Heap.replace_eq hb₁ (hsize ▸ hi), hback]
  exact congrArg _ hcalls.calls

/-- Storing a value in an unset cell makes one call and sets the cell. -/
theorem ends_store_of_unset {cs : List (Option V)} (hcs : h.contents? b = some cs) {i : Nat}
    (hi : cs[i]? = some none) {v : V} (hv : h.Counted v) :
    Ends (Heap.store b i v h)
      (fun _ g => g.contents? b = some (cs.set i (some v)) ∧
        (∀ c, h.count c ≤ g.count c ∧ g.count c ≤ h.count c + Host.pointersTo c [v]) ∧
        g.stats = h.stats ∧ g.calls = h.acquiring .cell [v] ++ h.calls)
      fun f _ => h.OverflowsFor [v] f := by
  refine (ends_acquire_of_counted hv .cell).bind fun _ h₁ hacquired => ?_
  obtain ⟨hcalls, hgrowth⟩ := hacquired
  obtain ⟨block, hb, rfl⟩ := Option.map_eq_some_iff.mp hcs
  obtain ⟨block₁, hb₁, hcontents, hsize⟩ := hcalls.exists_block hb
  have hlt : i < block₁.size := by
    rw [hsize, ← block.length_contents]
    exact (List.getElem?_eq_some_iff.mp hi).1
  have hunset : h₁.value? b i = none := by
    rw [Heap.value?_eq hb₁, hcontents, hi, Option.join_some]
  have hreplace : h₁.replace b i v = h₁.setValue b i (some v) := by
    simp only [replace, hunset, touch_eq hb₁ hlt]
  refine ends_update ?_
  rw [hreplace]
  refine ⟨?_, fun c => ?_, hcalls.stats, hcalls.calls⟩
  · rw [contents?_setValue, hcalls.contents, contents?_eq hb]
    rfl
  · rw [count_setValue]
    exact ⟨hcalls.counts c, hgrowth c⟩

/-- Filling unset cells makes one call for each of them. -/
theorem ends_fill_of_unset {n : Nat} {ws : List V} {cs : List (Option V)} {i : Nat}
    (hcs : h.contents? b = some cs) (hunset : ∀ j, i ≤ j → j < n → cs[j]? = some none)
    (hn : i + ws.length ≤ n) (hws : ∀ v ∈ ws, h.Counted v) :
    Ends ((Pointer.cells b n).fill i ws h)
      (fun _ g => g.stats = h.stats ∧ g.calls = (h.acquiring .cell ws).reverse ++ h.calls)
      fun f _ => h.OverflowsFor ws f := by
  induction ws generalizing i h cs with
  | nil => exact ends_pure ⟨rfl, rfl⟩
  | cons v ws ih =>
    rw [List.length_cons] at hn
    have hlt : i < n := by omega
    have hslot : (Pointer.cells b n).slot? i = .ok b := if_pos hlt
    have hstore := ends_store_of_unset hcs (hunset i (Nat.le_refl i) hlt) (hws v List.mem_cons_self)
    have hset : (Pointer.cells b n).setAt i v h = Heap.store b i v h := by
      rw [Pointer.setAt, hslot]
      rfl
    rw [← hset] at hstore
    have hsplit (c : BlockId) := pointersTo_cons c v ws
    refine Ends.bind (hstore.mono (fun _ _ => id) fun f _ hf => hf.mono (fun c => ?_) fun c _ => ?_)
      ?_
    · have hc := hsplit c
      omega
    · have hc := hsplit c
      omega
    rintro - h₁ ⟨hcs₁, hcounts, hstats, hcalls⟩
    have hunset₁ : ∀ j, i + 1 ≤ j → j < n → (cs.set i (some v))[j]? = some none := by
      intro j hij hjn
      rw [List.getElem?_set_ne (by omega)]
      exact hunset j (by omega) hjn
    have hrest := ih hcs₁ hunset₁ (by omega) fun u hu =>
      (hws u (List.mem_cons_of_mem v hu)).mono fun c => (hcounts c).1
    refine hrest.mono ?_ fun f _ hf => hf.mono (fun c => ?_) fun c _ => ?_
    · rintro - g ⟨hgstats, hg⟩
      refine ⟨hgstats.trans hstats, ?_⟩
      rw [hg, hcalls, acquiring, acquiring, acquiring, hstats]
      simp
    · have hc := hsplit c
      omega
    · have hc := hsplit c
      have hgrowth := (hcounts c).2
      omega

omit [Host V] in
/-- The cells of a block that was just made are unset. -/
theorem contents?_addBlock {n : Nat} (hn : 0 < n) (h : Heap V) :
    (h.addBlock n).contents? h.blocks.length = some (List.replicate n none) := by
  rw [contents?, block?_addBlock, if_pos rfl, Option.map_some, Block.contents_fresh hn]

omit [Host V] in
theorem count_le_addBlock (h : Heap V) (n : Nat) (c : BlockId) :
    h.count c ≤ (h.addBlock n).count c := by
  rw [count, count, block?_addBlock]
  split
  · rename_i hc
    rw [hc, h.block?_length]
    exact Nat.zero_le _
  · exact Nat.le_refl _

omit [Host V] in
theorem count_addBlock_le (h : Heap V) (n : Nat) (c : BlockId) :
    (h.addBlock n).count c ≤ h.count c + 1 := by
  rw [count, count, block?_addBlock]
  split
  · exact Nat.le_add_left _ _
  · exact Nat.le_add_right _ _

/-- What overflows next to a block that was just made would have done so before: no pointer leads to
the fresh one. -/
theorem OverflowsFor.of_addBlock {n : Nat} {vs : List V} {f : Fault}
    (hf : (h.addBlock n).OverflowsFor vs f) (hvs : ∀ v ∈ vs, h.Counted v) :
    h.OverflowsFor vs f := by
  refine hf.mono (fun _ => Nat.le_refl _) fun c hc => ?_
  have hpos := count_pos_of_pointersTo hvs hc
  have hne : c ≠ h.blocks.length := by
    rintro rfl
    rw [count, h.block?_length] at hpos
    exact Nat.lt_irrefl 0 hpos
  rw [count, block?_addBlock, if_neg hne]
  exact Nat.le_refl _

end Heap

/-! ## Operations -/

variable [Host V]

namespace Operation

/-- The references to values that an operation takes, in order: one for each set cell that it reads,
one for each value that it stores. -/
def acquires (o : Operation V) (h : Heap V) : List (Event V) :=
  match o with
  | allocate v | set .null v => (h.addBlock 1).acquiring .cell [v]
  | allocateCollection filling =>
    (h.addBlock filling.size).acquiring .cell filling.contents
  | set (.cells _ _) v | setAt _ _ v => h.acquiring .cell [v]
  | acquire v => h.acquiring .caller [v]
  | get (.cells b _) => h.acquiring .caller (h.value? b 0).toList
  | getAt (.cells b _) i => h.acquiring .caller (h.value? b i).toList
  | toList (.cells b _) => h.acquiring .caller ((h.block? b).elim [] Block.stored)
  | _ => []

/-- How many references an operation makes, at most: those that it takes to values, and one for a
pointer that it returns. -/
def takes (o : Operation V) (h : Heap V) : Nat :=
  (o.acquires h).length + 1

omit [Host V] in
/-- The operation writes a cell that was there before. -/
def Overwrites : Operation V → Prop
  | set (.cells _ _) _ | setAt _ _ _ => True
  | _ => False

/-- The operation made the calls that it should: it took its references, and gave none back unless
it has overwritten a cell. -/
def Called (o : Operation V) (h g : Heap V) : Prop :=
  ∃ back, g.calls = back ++ ((o.acquires h).reverse ++ h.calls) ∧
    (∀ e ∈ back, e.FromCell) ∧ (¬ o.Overwrites → back = [])

end Operation

/-- An operation succeeded, and made the calls that it should. -/
structure Outcome.Served (out : Outcome V) (o : Operation V) (h : Heap V) : Prop where
  /-- nothing went wrong -/
  succeeds : out.fault? = none
  /-- these calls were made -/
  calls : o.Called h out.heap

variable {h g : Heap V} {o : Operation V} {α : Type} {out : Except Fault α × Heap V}
  {given : List Pointer}

/-- An operation that gives nothing back. -/
theorem Operation.Called.of_eq (hcalls : g.calls = (o.acquires h).reverse ++ h.calls) :
    o.Called h g :=
  ⟨[], hcalls, List.forall_mem_nil _, fun _ => rfl⟩

/-- An operation that is served, unless a count cannot be raised that often. -/
def Outcome.ServedWithin (out : Outcome V) (o : Operation V) (h : Heap V) : Prop :=
  out.Served o h ∨ ∃ f, out.fault? = some f ∧ h.Overflows (o.takes h) f

theorem Outcome.ServedWithin.of_ends
    (hends : Ends out (fun _ g => o.Called h g) fun f _ => h.Overflows (o.takes h) f) :
    Outcome.ServedWithin ⟨reason? out.1, given, out.2⟩ o h := by
  rcases out with ⟨f | a, g⟩
  · exact .inr ⟨f, rfl, hends⟩
  · exact .inl ⟨rfl, hends⟩

/-- An operation that takes one reference and calls nobody. -/
theorem Outcome.ServedWithin.of_quiet (ho : o.acquires h = [])
    (hends : Ends out (fun _ g => g.calls = h.calls) fun f _ => h.Overflows 1 f) :
    Outcome.ServedWithin ⟨reason? out.1, given, out.2⟩ o h := by
  have htakes : o.takes h = 1 := by rw [Operation.takes, ho]; rfl
  refine .of_ends (hends.mono (fun _ g hg => .of_eq ?_) fun f _ hf => htakes ▸ hf)
  rw [hg, ho]
  rfl

/-- What cannot be raised as often as there are values to take cannot be raised once more. -/
theorem Operation.overflows_takes {k : Nat} {f : Fault} (hk : k = (o.acquires h).length)
    (hf : h.Overflows k f) : h.Overflows (o.takes h) f :=
  hf.mono fun c => by rw [takes]; omega

omit [Host V] in
/-- A check that has no cause to report is passed. -/
theorem Pointer.ends_passed {β : Type} {x : Except HeapError α} {f : α → Action V β}
    {Q : β → Heap V → Prop} {E : Fault → Heap V → Prop} (hx : reason? x = none)
    (hf : ∀ a, x = .ok a → Ends (f a h) Q E) : Ends ((Pointer.checked x >>= f) h) Q E := by
  cases x with
  | error e => cases hx
  | ok a => exact hf a rfl

/-- A block is made and filled. -/
theorem Pointer.ends_made {n : Nat} {filling : BlockId → Action V Unit} {Q : Heap V → Prop}
    {E : Fault → Prop} (hn : h.shortage? n = none)
    (hfill : Ends (filling h.blocks.length (h.addBlock n)) (fun _ g => Q g) fun f _ => E f) :
    Ends ((do
        let b ← Heap.allocate n
        (filling b).orElseUndo (·.dropPointer (.cells b n))
        Pure.pure (.cells b n) : Action V Pointer) h)
      (fun p g => p = .cells h.blocks.length n ∧ Q g) fun f _ => E f := by
  rw [bind_of_ok (Heap.allocate_of_room hn)]
  exact Ends.bind (hfill.orElseUndo fun f _ hf => hf) fun _ g hg => ends_pure ⟨rfl, hg⟩

theorem Pointer.ends_allocate_of_counted (hn : h.shortage? 1 = none) {v : V} (hv : h.Counted v) :
    Ends (Pointer.allocate v h)
      (fun p g => p = .cells h.blocks.length 1 ∧ g.stats = (h.addBlock 1).stats ∧
        g.calls = (h.addBlock 1).acquiring .cell [v] ++ h.calls)
      fun f _ => h.OverflowsFor [v] f := by
  have hstore := Heap.ends_store_of_unset (Heap.contents?_addBlock Nat.one_pos h) (i := 0) rfl
    (hv.mono (h.count_le_addBlock 1))
  exact ends_made hn (hstore.mono (fun _ g hg => ⟨hg.2.2.1, hg.2.2.2⟩) fun _ _ hf =>
    hf.of_addBlock (List.forall_mem_singleton.mpr hv))

theorem Pointer.ends_allocateCollection_of_counted {filling : Filling V}
    (hn : h.shortage? filling.size = none) (hvs : ∀ v ∈ filling.contents, h.Counted v) :
    Ends (Pointer.allocateCollection filling h)
      (fun p g => p = .cells h.blocks.length filling.size ∧
        g.stats = (h.addBlock filling.size).stats ∧
        g.calls =
          ((h.addBlock filling.size).acquiring .cell filling.contents).reverse ++ h.calls)
      fun f _ => h.OverflowsFor filling.contents f := by
  have hpos := Heap.pos_of_shortage? hn
  have hunset : ∀ j, 0 ≤ j → j < filling.size →
      (List.replicate filling.size (none : Option V))[j]? = some none := by
    intro j _ hj
    rw [List.getElem?_replicate_of_lt hj]
  have hlength : 0 + filling.contents.length ≤ filling.size := by
    rw [filling.length_contents, Nat.zero_add]
  have hfill := Heap.ends_fill_of_unset (Heap.contents?_addBlock hpos h) hunset hlength
    fun v hv => (hvs v hv).mono (h.count_le_addBlock filling.size)
  exact ends_made hn (hfill.mono (fun _ _ => id) fun _ _ hf => hf.of_addBlock hvs)

/-- A write through a null pointer is the first write of a fresh cell. -/
theorem Pointer.set_null_of_counted (hn : h.shortage? 1 = none) {v : V} (hv : h.Counted v) :
    ((Pointer.null).set v h).1.1 = .cells h.blocks.length 1 ∧
      Ends (((Pointer.null).set v h).1.2, ((Pointer.null).set v h).2)
        (fun _ g => g.stats = (h.addBlock 1).stats ∧
          g.calls = (h.addBlock 1).acquiring .cell [v] ++ h.calls)
        fun f _ => h.OverflowsFor [v] f := by
  have hcontents : ((h.addBlock 1).log (.upgraded h.blocks.length)).contents? h.blocks.length =
      some [none] := Heap.contents?_addBlock Nat.one_pos h
  have hstore := Heap.ends_store_of_unset hcontents (i := 0) rfl
    (hv.mono (h.count_le_addBlock 1))
  rw [set_null_eq, Heap.refusal_eq, hn]
  refine ⟨rfl, hstore.mono (fun _ g hg => ⟨hg.2.2.1, hg.2.2.2⟩) fun f _ hf => ?_⟩
  exact Heap.OverflowsFor.of_addBlock (n := 1) hf (List.forall_mem_singleton.mpr hv)

/-- On an intact heap, an operation that has no cause to report succeeds, unless it comes to a count
that it cannot raise. -/
theorem Operation.served {o : Operation V} (ho : o.Given h) (hi : h.Intact)
    (hcause : o.cause? h = none) : (o.run h).ServedWithin o h := by
  obtain ⟨hp, hv⟩ := ho
  -- a pointer that the operation was given leads to a block that has a count
  have hcount {b n : Nat} (hmem : .cells b n ∈ o.pointers) : 0 < h.count b := by
    obtain ⟨block, hb, -⟩ := hp _ hmem b n rfl
    rw [Heap.count_eq hb]
    exact hi.counts b block hb
  have hcrowded {b : BlockId} {f : Fault} (hf : f = .overflow b ∧ h.Crowded b) :
      h.Overflows 1 f := ⟨b, hf⟩
  cases o with
  | allocate v =>
    have hrun := Pointer.ends_allocate_of_counted hcause
      (hi.counted (hv v (List.mem_singleton_self v)))
    exact .of_ends (hrun.mono (fun _ g hg => .of_eq hg.2.2) fun _ _ hf =>
      overflows_takes rfl hf.overflows)
  | allocateCollection filling =>
    have hrun := Pointer.ends_allocateCollection_of_counted hcause fun v hmem =>
      hi.counted (hv v hmem)
    refine .of_ends (hrun.mono (fun _ g hg => .of_eq hg.2.2) fun f _ hf =>
      overflows_takes ?_ hf.overflows)
    rw [acquires, Heap.acquiring, List.length_map]
  | bind p =>
    cases p with
    | null => exact .of_quiet rfl (ends_pure rfl)
    | cells b n =>
      have hretain := Heap.ends_retainOr_of_counted (hcount (List.mem_singleton_self _))
        (.error (.expired (.block b)))
      refine .of_quiet rfl ((hretain.mono (fun _ _ => id) fun _ _ => hcrowded).bind ?_)
      rintro - g rfl
      exact ends_pure rfl
  | copy p =>
    cases p with
    | null => exact .of_quiet rfl (ends_pure rfl)
    | cells b n =>
      have hcopy := Heap.ends_retainOr_of_counted (hcount (List.mem_singleton_self _))
        (.abandoned b)
      refine .of_quiet rfl ((hcopy.mono (fun _ _ => id) fun _ _ => hcrowded).bind ?_)
      rintro - g rfl
      exact ends_pure rfl
  | retain b n =>
    have hretain := Heap.ends_retainOr_of_counted (hcount (List.mem_singleton_self _))
      (.error (.expired (.block b)))
    refine .of_quiet rfl (hretain.mono ?_ fun _ _ => hcrowded)
    rintro - g rfl
    rfl
  | acquire v =>
    have hrun := Heap.ends_acquire_of_counted (hi.counted (hv v (List.mem_singleton_self v)))
      .caller
    exact .of_ends (hrun.mono (fun _ g hg => .of_eq hg.1.calls) fun _ _ hf =>
      overflows_takes rfl hf.overflows)
  | get p =>
    refine .of_ends (Pointer.ends_passed (p.reason?_scalar?.trans hcause) fun b hb => ?_)
    obtain ⟨n, rfl⟩ := Pointer.scalar?_eq_ok hb
    obtain ⟨block, hblock, -⟩ := hp _ (List.mem_singleton_self _) b n rfl
    have hrun := (Heap.Calls.refl h).ends_read hblock (Nat.succ_pos _)
      fun v hv => hi.counted_of_stored hblock (Block.mem_stored_of_value? hv)
    refine hrun.mono (fun _ g hg => .of_eq hg.2.calls) fun _ _ => overflows_takes ?_
    simp [acquires, Heap.acquiring]
  | set p v =>
    have hcounted := hi.counted (hv v (List.mem_singleton_self v))
    cases p with
    | null =>
      obtain ⟨-, hrun⟩ := Pointer.set_null_of_counted hcause hcounted
      have hcalled (g : Heap V) (hg : g.calls = (h.addBlock 1).acquiring .cell [v] ++ h.calls) :
          (Operation.set .null v).Called h g := .of_eq hg
      have hends := hrun.mono (fun _ g hg => hcalled g hg.2) fun f _ hf =>
        overflows_takes (o := .set .null v) (k := 1) rfl hf.overflows
      exact Outcome.ServedWithin.of_ends hends
    | cells b n =>
      refine .of_ends (Pointer.ends_passed ((Pointer.cells b n).reason?_scalar?.trans hcause)
        fun c hc => ?_)
      obtain ⟨m, hm⟩ := Pointer.scalar?_eq_ok hc
      cases hm
      obtain ⟨block, hblock, -⟩ := hp _ (List.mem_singleton_self _) b n rfl
      have hrun := Heap.ends_store_of_counted hblock (Nat.succ_pos _) hcounted
      refine hrun.mono ?_ fun _ _ hf => overflows_takes rfl hf.overflows
      rintro - g ⟨back, hcalls, hfrom⟩
      exact ⟨back, hcalls, hfrom, fun hnot => absurd trivial hnot⟩
  | getAt p i =>
    refine .of_ends (Pointer.ends_passed ((p.reason?_slot? i).trans hcause) fun b hb => ?_)
    obtain ⟨n, rfl, hlt⟩ := Pointer.slot?_eq_ok hb
    obtain ⟨block, hblock, rfl⟩ := hp _ (List.mem_singleton_self _) b n rfl
    have hrun := (Heap.Calls.refl h).ends_read hblock hlt
      fun v hv => hi.counted_of_stored hblock (Block.mem_stored_of_value? hv)
    refine hrun.mono (fun _ g hg => .of_eq hg.2.calls) fun _ _ => overflows_takes ?_
    simp [acquires, Heap.acquiring]
  | setAt p i v =>
    have hcounted := hi.counted (hv v (List.mem_singleton_self v))
    refine .of_ends (Pointer.ends_passed ((p.reason?_slot? i).trans hcause) fun b hb => ?_)
    obtain ⟨n, rfl, hlt⟩ := Pointer.slot?_eq_ok hb
    obtain ⟨block, hblock, rfl⟩ := hp _ (List.mem_singleton_self _) b n rfl
    have hrun := Heap.ends_store_of_counted hblock hlt hcounted
    refine hrun.mono ?_ fun _ _ hf => overflows_takes rfl hf.overflows
    rintro - g ⟨back, hcalls, hfrom⟩
    exact ⟨back, hcalls, hfrom, fun hnot => absurd trivial hnot⟩
  | swap p q =>
    obtain ⟨hpcause, hqcause⟩ := Option.or_eq_none_iff.mp hcause
    have hcalls (b c : BlockId) : (h.swap b 0 c 0).calls = h.calls := by
      have htouch (g : Heap V) (d : BlockId) : (g.touch d 0).calls = g.calls := by
        rw [Heap.touch]
        split <;> rfl
      exact (htouch (h.touch b 0) c).trans (htouch h b)
    exact .of_quiet rfl (Pointer.ends_passed (p.reason?_scalar?.trans hpcause) fun b _ =>
      Pointer.ends_passed (q.reason?_scalar?.trans hqcause) fun c _ => ends_update (hcalls b c))
  | toList p =>
    refine .of_ends (Pointer.ends_passed (p.reason?_block?.trans hcause) fun b hb => ?_)
    obtain ⟨n, rfl⟩ := Pointer.block?_eq_ok hb
    obtain ⟨block, hblock, rfl⟩ := hp _ (List.mem_singleton_self _) b n rfl
    have hrun := Heap.Calls.ends_readOn hblock
      (fun v hv => hi.counted_of_stored hblock hv) (Nat.zero_add _) [] (Heap.Calls.refl h)
    have hacquires : (Operation.toList (.cells b block.size)).acquires h =
        h.acquiring .caller block.stored := by rw [acquires, hblock]; rfl
    refine hrun.mono (fun _ g hc => .of_eq ?_) fun _ _ => overflows_takes ?_
    · rw [hacquires]
      exact hc.calls
    · rw [hacquires, Heap.acquiring, List.length_map, List.length_nil, Nat.zero_add]
      rfl

/-- With arguments that are there, an operation reports its cause and nothing else. -/
theorem Operation.Given.reports {o : Operation V} (ho : o.Given h) :
    (o.run h).Reports (o.cause? h) o.pointers h := by
  refine o.reports fun b n hmem => ?_
  obtain ⟨block, hb, -⟩ := ho.pointers _ hmem b n rfl
  exact ⟨block, hb⟩

/-- On an intact heap, an operation that ends early has reported an error, and nothing has
happened, or it came to a count that it could not raise. -/
theorem Operation.refused {o : Operation V} (ho : o.Given h) (hi : h.Intact) {f : Fault}
    (hf : (o.run h).fault? = some f) :
    (∃ e, o.cause? h = some e ∧ o.run h = ⟨some (.error e), o.pointers, h⟩) ∨
      o.cause? h = none ∧ h.Overflows (o.takes h) f := by
  rcases hcause : o.cause? h with - | e
  · rcases Operation.served ho hi hcause with hserved | ⟨f', hf', hover⟩
    · rw [hserved.succeeds] at hf
      cases hf
    · rw [hf] at hf'
      cases hf'
      exact .inr ⟨rfl, hover⟩
  · exact .inl ⟨e, rfl, ho.reports.reported e hcause⟩

/-- With exact counts, every block has one, and whatever is held leads somewhere. -/
theorem Ledger.Exact.intact [Faced V] {l : Ledger V} (he : l.Exact) (hl : l.Sound) :
    l.heap.Intact where
  counts b _ hb := (he b _ _ (Heap.shape?_eq hb)).2
  leads _ := hl.leads_held

/-! ## Pointers that pass their checks -/

namespace Pointer

variable {b : BlockId} {n i : Nat}

omit [Host V] in
theorem checked_bind_of_ok {β : Type} {x : Except HeapError α} {f : α → Action V β} {a : α}
    (hx : x = .ok a) : (checked x >>= f) = f a := by
  rw [hx]
  rfl

theorem getAt_eq (hi : i < n) : (cells b n).getAt i = (Heap.read b i : Action V V) :=
  checked_bind_of_ok (if_pos hi)

theorem setAt_eq (hi : i < n) (v : V) : (cells b n).setAt i v = Heap.store b i v :=
  checked_bind_of_ok (if_pos hi)

theorem get_eq (b : BlockId) : (cells b 1).get = (Heap.read b 0 : Action V V) :=
  checked_bind_of_ok rfl

theorem toList_eq (b : BlockId) (n : Nat) :
    (cells b n).toList = (Pointer.readOn b n 0 [] : Action V (List V)) :=
  checked_bind_of_ok rfl

/-- A write goes through what the pointer is upgraded to. -/
theorem set_eq {p : Pointer} {h h' : Heap V} (hup : p.upgrade h = (.ok (cells b 1), h')) (v : V) :
    p.set v h = ((cells b 1, (Heap.store b 0 v h').1), (Heap.store b 0 v h').2) := by
  rw [set, hup]
  rfl

end Pointer

end CountedCells

import CountedCells.Proofs.Tally

/-!
# Sound ledgers

Moves keep a ledger sound (`Move.sound`), and so does everything that is made of moves. For counts
this is known already. What remains is that references still lead somewhere, and that values with
shared content find it: no other value can take the place of a payload, and the parts stay as long
as somebody shares them.
-/

namespace CountedCells

variable {V : Type} [Host V] [Faced V]

/-! ## References lead somewhere -/

omit [Faced V] in
theorem mem_refs_of_taken {l l' : Ledger V} {r r' : Ref} (hrefs : l'.refs = {r} + l.refs)
    (h : r' ∈ l'.refs) : r' = r ∨ r' ∈ l.refs := by
  rw [hrefs, Multiset.mem_add, Multiset.mem_singleton] at h
  exact h

omit [Faced V] in
theorem mem_refs_of_given {l l' : Ledger V} {r r' : Ref} (hrefs : l.refs = {r} + l'.refs)
    (h : r' ∈ l'.refs) : r' ∈ l.refs := by
  rw [hrefs]
  exact Multiset.mem_add.mpr (.inr h)

/-- The number of cells behind a reference does not change when a count does. -/
theorem anchored_of_update {l l' : Ledger V} (hl : l.Sound) {b₁ c₁ c n₁ : Nat}
    (hb₁ : l.heap.shape? b₁ = some (c₁, n₁))
    (hshape : l'.heap.shape? = Function.update l.heap.shape? b₁ (some (c, n₁))) {b n : Nat}
    (h : .block b n ∈ l.refs) : ∃ c, l'.heap.shape? b = some (c, n) := by
  obtain ⟨c₂, hc₂⟩ := hl.anchored b n h
  rw [hshape]
  by_cases hb : b = b₁
  · subst hb
    rw [hb₁] at hc₂
    cases hc₂
    exact ⟨c, Function.update_self ..⟩
  · exact ⟨c₂, by rw [Function.update_of_ne hb, hc₂]⟩

/-- References to blocks go on to lead to blocks of that many cells. -/
theorem Effect.anchored {l l' : Ledger V} (hl : l.Sound) (e : Effect l l') {b n : Nat}
    (h : .block b n ∈ l'.refs) : ∃ c, l'.heap.shape? b = some (c, n) := by
  cases e with
  | quiet hshape _ hrefs =>
    rw [hshape]
    exact hl.anchored b n (hrefs ▸ h)
  | @made b₁ n₁ hb₁ hshape _ hrefs =>
    rw [hshape]
    rcases mem_refs_of_taken hrefs h with hr | hr
    · cases hr
      exact ⟨1, Function.update_self ..⟩
    · obtain ⟨c, hc⟩ := hl.anchored b n hr
      -- nothing refers to a block before it is there
      have hne : b ≠ b₁ := by
        rintro rfl
        rw [hb₁, shape?_length] at hc
        cases hc
      exact ⟨c, by rw [Function.update_of_ne hne, hc]⟩
  | took hmem hb₁ _ _ hshape _ hrefs =>
    rcases mem_refs_of_taken hrefs h with hr | hr
    · cases hr
      exact anchored_of_update hl hb₁ hshape hmem
    · exact anchored_of_update hl hb₁ hshape hr
  | gave hb₁ hshape _ hrefs => exact anchored_of_update hl hb₁ hshape (mem_refs_of_given hrefs h)
  | lapsed _ hshape _ hrefs =>
    rw [hshape]
    exact hl.anchored b n (mem_refs_of_given hrefs h)
  | @destroyed b₁ n₁ hb₁ hshape _ hrefs =>
    obtain ⟨c, hc⟩ := hl.anchored b n (mem_refs_of_given hrefs h)
    have hne : b ≠ b₁ := by
      rintro rfl
      -- this would be a second owner, and the count knows of one
      have howner : 0 < l'.ownersOf b := Multiset.countP_pos.mpr ⟨_, h, rfl⟩
      have hcovered := hl.counted b 1 n₁ hb₁
      rw [Ledger.ownersOf_self hrefs, Covered] at hcovered
      omega
    exact ⟨c, by rw [hshape, Function.update_of_ne hne, hc]⟩
  | shared hshape _ hrefs =>
    rw [hshape]
    exact hl.anchored b n ((mem_refs_of_taken hrefs h).resolve_left Ref.noConfusion)
  | reshared _ _ hshape _ hrefs =>
    rw [hshape]
    rcases hrefs with ⟨-, -, hrefs⟩ | ⟨-, hrefs⟩
    · exact hl.anchored b n ((mem_refs_of_taken hrefs h).resolve_left Ref.noConfusion)
    · exact hl.anchored b n (mem_refs_of_given hrefs h)
  | cleared _ _ hshape _ hrefs =>
    rw [hshape]
    exact hl.anchored b n (mem_refs_of_given hrefs h)

/-! ## Payloads -/

/-- A payload that is counted, and has parts only while it is shared. -/
structure Settled (l l' : Ledger V) (p : PayloadId) : Prop where
  /-- its count is the number of its owners -/
  shared : ∀ payload : Payload V, l'.heap.payloads[p]? = some payload →
    payload.shares = l'.sharersOf p
  /-- nobody shares it, or it has the parts that it had -/
  parts : ∀ payload : Payload V, l'.heap.payloads[p]? = some payload →
    payload.shares = 0 ∧ payload.parts = [] ∨ payload.shares ≠ 0 ∧
      ∀ before : Payload V, l.heap.payloads[p]? = some before → payload.parts = before.parts

/-- A payload is settled if it and its owners are as they were. -/
theorem Settled.of_same {l l' : Ledger V} (hl : l.Sound) {p : PayloadId}
    (hpayload : l'.heap.payloads[p]? = l.heap.payloads[p]?)
    (hsharers : l'.sharersOf p = l.sharersOf p) : Settled l l' p := by
  refine ⟨fun payload hp => ?_, fun payload hp => ?_⟩
  · rw [hsharers]
    exact hl.shared p payload (hpayload ▸ hp)
  · rw [hpayload] at hp
    by_cases hzero : payload.shares = 0
    · exact .inl ⟨hzero, hl.spent p payload hp hzero⟩
    · refine .inr ⟨hzero, fun before hbefore => ?_⟩
      rw [hp] at hbefore
      cases hbefore
      rfl

/-- Where only one payload has changed, only that one has to be looked at. -/
theorem Settled.of_set {l l' : Ledger V} (hl : l.Sound) {p₁ : PayloadId}
    {before payload : Payload V} (hp₁ : l.heap.payloads[p₁]? = some before)
    (hpayloads : l'.heap.payloads = l.heap.payloads.set p₁ payload)
    (hothers : ∀ p, Ref.payload p ≠ .payload p₁ → l'.sharersOf p = l.sharersOf p)
    (hself : payload.shares = l'.sharersOf p₁)
    (hparts : payload.shares = 0 ∧ payload.parts = [] ∨
      payload.shares ≠ 0 ∧ payload.parts = before.parts) (p : PayloadId) : Settled l l' p := by
  by_cases hp : p = p₁
  · subst hp
    have hset : l'.heap.payloads[p]? = some payload := by
      rw [hpayloads, List.getElem?_set_self (List.getElem?_eq_some_iff.mp hp₁).1]
    refine ⟨fun now hnow => ?_, fun now hnow => ?_⟩ <;> rw [hset] at hnow <;> cases hnow
    · exact hself
    · refine hparts.imp_right fun hkept => ⟨hkept.1, fun other hother => ?_⟩
      rw [hp₁] at hother
      cases hother
      exact hkept.2
  · refine .of_same hl ?_ (hothers p fun h => hp (Ref.payload.inj h))
    rw [hpayloads, List.getElem?_set_ne (Ne.symm hp)]

/-- A payload that is new has one owner, and those before it are as they were. -/
theorem Settled.of_concat {l l' : Ledger V} (hl : l.Sound) {parts : List V}
    (hpayloads : l'.heap.payloads = l.heap.payloads ++ [⟨1, parts⟩])
    (hrefs : l'.refs = {.payload l.heap.payloads.length} + l.refs) (p : PayloadId) :
    Settled l l' p := by
  by_cases hp : p = l.heap.payloads.length
  · subst hp
    have hnew : l'.heap.payloads[l.heap.payloads.length]? = some ⟨1, parts⟩ := by
      rw [hpayloads, List.getElem?_concat_length]
    -- nobody can have owned it before, since references lead to what is there
    have hnone : l.sharersOf l.heap.payloads.length = 0 :=
      Multiset.count_eq_zero.mpr fun h => Nat.lt_irrefl _ (hl.known _ h)
    refine ⟨fun payload h => ?_, fun payload h => ?_⟩ <;> rw [hnew] at h <;> cases h
    · rw [Ledger.sharersOf_self hrefs, hnone]
    · refine .inr ⟨Nat.one_ne_zero, fun before hbefore => ?_⟩
      rw [List.getElem?_eq_none (Nat.le_refl _)] at hbefore
      cases hbefore
  · refine .of_same hl ?_ (Ledger.sharersOf_other hrefs fun h => hp (Ref.payload.inj h))
    rw [hpayloads]
    rcases Nat.lt_or_gt_of_ne hp with hlt | hgt
    · exact List.getElem?_append_left hlt
    · rw [List.getElem?_eq_none (Nat.le_of_lt hgt), List.getElem?_eq_none]
      rw [List.length_append]
      exact hgt

/-- A move leaves all payloads counted. -/
theorem Effect.settled {l l' : Ledger V} (hl : l.Sound) (e : Effect l l') (p : PayloadId) :
    Settled l l' p := by
  have hblock : ∀ {b n : Nat}, Ref.payload p ≠ .block b n := Ref.noConfusion
  cases e with
  | quiet _ hpayloads hrefs =>
    refine .of_same hl (by rw [hpayloads]) ?_
    rw [Ledger.sharersOf, hrefs]
    rfl
  | made _ _ hpayloads hrefs | took _ _ _ _ _ hpayloads hrefs =>
    exact .of_same hl (by rw [hpayloads]) (Ledger.sharersOf_other hrefs hblock)
  | gave _ _ hpayloads hrefs | lapsed _ _ hpayloads hrefs | destroyed _ _ hpayloads hrefs =>
    exact .of_same hl (by rw [hpayloads]) (Ledger.sharersOf_other hrefs hblock).symm
  | shared _ hpayloads hrefs => exact .of_concat hl hpayloads hrefs p
  | @reshared p₁ before k hp₁ hk _ hpayloads hrefs =>
    have hbefore := hl.shared p₁ before hp₁
    refine .of_set hl hp₁ hpayloads (fun p hne => ?_) ?_ (.inr ⟨Nat.ne_of_gt hk, rfl⟩) p
    · rcases hrefs with ⟨-, -, hrefs⟩ | ⟨-, hrefs⟩
      · exact Ledger.sharersOf_other hrefs hne
      · exact (Ledger.sharersOf_other hrefs hne).symm
    · rcases hrefs with ⟨-, hshares, hrefs⟩ | ⟨hshares, hrefs⟩
      · rw [Ledger.sharersOf_self hrefs, ← hbefore]
        exact hshares
      · rw [Ledger.sharersOf_self hrefs, hshares] at hbefore
        exact Nat.succ_injective hbefore
  | @cleared p₁ before hp₁ hone _ hpayloads hrefs =>
    have hbefore := hl.shared p₁ before hp₁
    rw [Ledger.sharersOf_self hrefs, hone] at hbefore
    refine .of_set hl hp₁ hpayloads (fun p hne => ?_) (Nat.succ_injective hbefore)
      (.inl ⟨rfl, rfl⟩) p
    exact (Ledger.sharersOf_other hrefs hne).symm

omit [Faced V] in
/-- Payloads never go away. -/
theorem Effect.length_payloads {l l' : Ledger V} (e : Effect l l') :
    l.heap.payloads.length ≤ l'.heap.payloads.length := by
  cases e with
  | shared _ hpayloads _ =>
    rw [hpayloads, List.length_append]
    omega
  | reshared _ _ _ hpayloads _ | cleared _ _ _ hpayloads _ => rw [hpayloads, List.length_set]
  | quiet _ hpayloads _ | made _ _ hpayloads _ | took _ _ _ _ _ hpayloads _ | gave _ _ hpayloads _
  | lapsed _ _ hpayloads _ | destroyed _ _ hpayloads _ => rw [hpayloads]

theorem Effect.known {l l' : Ledger V} (hl : l.Sound) (e : Effect l l') {p : PayloadId}
    (h : .payload p ∈ l'.refs) : p < l'.heap.payloads.length := by
  have hlength := e.length_payloads
  have hbefore : .payload p ∈ l.refs → p < l'.heap.payloads.length :=
    fun hr => Nat.lt_of_lt_of_le (hl.known p hr) hlength
  cases e with
  | quiet _ _ hrefs => exact hbefore (hrefs ▸ h)
  | made _ _ _ hrefs | took _ _ _ _ _ _ hrefs =>
    exact hbefore ((mem_refs_of_taken hrefs h).resolve_left Ref.noConfusion)
  | gave _ _ _ hrefs | lapsed _ _ _ hrefs | destroyed _ _ _ hrefs | cleared _ _ _ _ hrefs =>
    exact hbefore (mem_refs_of_given hrefs h)
  | shared _ hpayloads hrefs =>
    rcases mem_refs_of_taken hrefs h with hr | hr
    · cases hr
      rw [hpayloads, List.length_append]
      exact Nat.lt_succ_self _
    · exact hbefore hr
  | reshared _ _ _ _ hrefs =>
    rcases hrefs with ⟨hmem, -, hrefs⟩ | ⟨-, hrefs⟩
    · rcases mem_refs_of_taken hrefs h with hr | hr
      · exact hbefore (hr ▸ hmem)
      · exact hbefore hr
    · exact hbefore (mem_refs_of_given hrefs h)

/-- A value that keeps its share of a payload keeps its parts. -/
theorem Effect.backed {l l' : Ledger V} (hl : l.Sound) (e : Effect l l') {v : V}
    (hv : Backed l.heap v) (howned : l'.Has v) : Backed l'.heap v := by
  intro p hp
  obtain ⟨before, hbefore, hchildren⟩ := hv p hp
  have hmem : .payload p ∈ l'.refs := Ledger.mem_refs_of_has howned hp
  obtain ⟨payload, hpayload⟩ : ∃ payload, l'.heap.payloads[p]? = some payload :=
    ⟨_, List.getElem?_eq_getElem (e.known hl hmem)⟩
  refine ⟨payload, hpayload, ?_⟩
  -- the value itself is an owner, so the payload cannot have been cleared
  have hsettled := e.settled hl p
  rcases hsettled.parts payload hpayload with ⟨hzero, -⟩ | ⟨-, hparts⟩
  · have hpos : 0 < l'.sharersOf p := Multiset.count_pos.mpr hmem
    rw [hsettled.shared payload hpayload] at hzero
    omega
  · rw [hparts before hbefore, hchildren]

/-! ## Moves keep a ledger sound -/

omit [Host V] [Faced V] in
/-- What one heap and its owners have, another heap with its owners has if there is no less. -/
theorem Ledger.Has.mono {h h' : Heap V} {os os' : Multiset (Owner V)} {w w' : Written V} {v : V}
    (hv : Ledger.Has ⟨h', os', w'⟩ v) (hheld : v ∈ h'.held → v ∈ h.held)
    (hos : ∀ k, Owner.value k v ∈ os' → .value k v ∈ os) : Ledger.Has ⟨h, os, w⟩ v :=
  hv.imp hheld (Exists.imp hos)

omit [Host V] [Faced V] in
/-- Values that owners have come from the heap, or from other owners. -/
theorem Ledger.has_of_held {h h' : Heap V} {os os' : Multiset (Owner V)} {w w' : Written V}
    {vs ws : List V} {holder holder' : Holder} {v : V}
    (hv : Ledger.Has ⟨h', Owner.ofValues holder vs + os', w'⟩ v)
    (hheld : h'.held + (vs : Multiset V) = h.held + (ws : Multiset V))
    (hos : ∀ k v, Owner.value k v ∈ os' → .value k v ∈ os) :
    Ledger.Has ⟨h, Owner.ofValues holder' ws + os, w⟩ v := by
  have hall : v ∈ h'.held + (vs : Multiset V) →
      Ledger.Has ⟨h, Owner.ofValues holder' ws + os, w⟩ v := by
    intro hin
    rw [hheld, Multiset.mem_add] at hin
    refine hin.imp id fun hin => ⟨holder', Multiset.mem_add.mpr (.inl ?_)⟩
    exact Owner.value_mem_ofValues.mpr ⟨rfl, hin⟩
  rcases hv with hv | ⟨k, hv⟩
  · exact hall (Multiset.mem_add.mpr (.inl hv))
  · rcases Multiset.mem_add.mp hv with hv | hv
    · exact hall (Multiset.mem_add.mpr (.inr (Owner.value_mem_ofValues.mp hv).2))
    · exact .inr ⟨k, Multiset.mem_add.mpr (.inr (hos k v hv))⟩

omit [Faced V] in
/-- Carrying out a task hands out no values that nobody had. -/
theorem Task.has_carryOut {h : Heap V} {os : Multiset (Owner V)} {w : Written V} (t : Task V)
    {v : V} (hv : Ledger.Has ⟨(t.carryOut h).2, Owner.ofTasks (t.carryOut h).1 + os, w⟩ v) :
    Ledger.Has ⟨h, {Owner.ofTask t} + os, w⟩ v := by
  -- most tasks leave the values in the heap alone and hand out none
  have hplain : ∀ {h' : Heap V}, h'.held = h.held →
      Ledger.Has ⟨h', Owner.ofTasks [] + os, w⟩ v → Ledger.Has ⟨h, {Owner.ofTask t} + os, w⟩ v := by
    intro h' hheld hv
    refine hv.mono (hheld ▸ id) fun k hk => Multiset.mem_add.mpr (.inr ?_)
    rwa [Owner.ofTasks_nil, zero_add] at hk
  cases t with
  | disown holder u =>
    refine hv.mono id fun k hk => Multiset.mem_add.mpr (.inr ?_)
    refine (Multiset.mem_add.mp hk).resolve_left ?_
    rw [Task.carryOut, Owner.ofTasks_dropsOf]
    exact Owner.value_notMem_ofRef
  | drop r =>
    cases r with
    | block b n =>
      simp only [Task.carryOut] at hv
      split at hv
      · exact hplain (Heap.held_expect ..) hv
      · rename_i block hb
        split at hv
        · exact hplain (Heap.held_expect ..) hv
        · -- what the cells held is handed out, and the heap had it before
          rw [Owner.ofTasks_disown] at hv
          have hheld := Heap.held_destroy hb n
          rw [Heap.held_expect] at hheld
          rcases hv with hv | ⟨k, hv⟩
          · exact .inl (hheld ▸ Multiset.mem_add.mpr (.inl hv))
          · rcases Multiset.mem_add.mp hv with hv | hv
            · refine .inl (hheld ▸ Multiset.mem_add.mpr (.inr ?_))
              obtain ⟨-, hv⟩ := Owner.value_mem_ofValues.mp hv
              exact Multiset.mem_coe.mpr (Block.mem_stored_of_mem_values hv)
            · exact .inr ⟨k, Multiset.mem_add.mpr (.inr hv)⟩
        · exact hplain (by rw [Heap.held_setCount, Heap.held_expect]) hv
    | payload p =>
      simp only [Task.carryOut] at hv
      split at hv
      · exact hplain rfl hv
      · rename_i payload hp
        split at hv
        · exact hplain rfl hv
        · -- only references go from here, not the parts themselves
          have hheld := Heap.held_clearPayload hp
          refine hv.mono (fun hv => hheld ▸ Multiset.mem_add.mpr (.inl hv)) fun k hk => ?_
          refine Multiset.mem_add.mpr (.inr ((Multiset.mem_add.mp hk).resolve_left ?_))
          exact Owner.value_notMem_dropsOf
        · exact hplain (Heap.held_setShares ..) hv

/-- A value that somebody has after a move was there before it, or finds its parts now. -/
theorem Move.has {l l' : Ledger V} (m : Move l l') {v : V} (hv : l'.Has v) :
    l.Has v ∨ Backed l'.heap v := by
  cases m with
  | allocate hn =>
    refine .inl (hv.mono (fun hv => ?_) fun k => Owner.value_mem_add_ref.mp)
    rwa [Heap.held_addBlock] at hv
  | @take h os w r hr hlive hroom =>
    refine .inl (hv.mono ?_ fun k => Owner.value_mem_add_ref.mp)
    cases r <;> simp [Heap.take]
  | @adopt h os w u hu =>
    rcases hv with hv | ⟨k, hv⟩
    · exact .inl (.inl hv)
    · rcases Multiset.mem_add.mp hv with hv | hv
      · -- this is the value that takes the reference over, and it comes backed
        cases Multiset.mem_singleton.mp hv
        exact .inr hu
      · exact .inl (.inr ⟨k, Multiset.mem_add.mpr (.inr hv)⟩)
  | part =>
    refine .inl (hv.mono id fun k hk => Multiset.mem_add.mpr (.inr ?_))
    exact (Multiset.mem_add.mp hk).resolve_left Owner.value_notMem_ofRef
  | @share h os w u parts hu hparts =>
    rcases hv with hv | ⟨k, hv⟩
    · rw [Heap.held_addPayload, Multiset.mem_add] at hv
      refine .inl (hv.imp id fun hv => ⟨.caller, Multiset.mem_add.mpr (.inl ?_)⟩)
      exact Owner.value_mem_ofValues.mpr ⟨rfl, hv⟩
    · rcases Multiset.mem_add.mp hv with hv | hv
      · cases Multiset.mem_singleton.mp hv
        refine .inr fun p hp => ⟨⟨1, parts⟩, ?_, hparts⟩
        rw [hu] at hp
        cases hp
        exact List.getElem?_concat_length
      · exact .inl (.inr ⟨k, Multiset.mem_add.mpr (.inr hv)⟩)
  | @report h os w u holder =>
    have hheld : (h.log (.acquired holder u h.stats)).held + ([u] : List V) =
        h.held + ([u] : List V) := rfl
    exact .inl (Ledger.has_of_held hv hheld fun _ _ => id)
  | @write h os w u b i block hb hi =>
    have hheld : (h.setValue b i (some u)).held + (h.value? b i).toList = h.held + ([u] : List V) :=
      Heap.held_setValue hb hi (some u)
    exact .inl (Ledger.has_of_held hv hheld fun _ _ => id)
  | swap hb hi hc hj =>
    refine .inl (hv.mono (fun hv => ?_) fun _ => id)
    rwa [Heap.held_swap hb hi hc hj] at hv
  | task t => exact .inl (t.has_carryOut hv)
  | lapse hc => exact .inl (hv.mono id fun k => Owner.value_mem_add_ref.mpr)
  | note he => exact .inl hv
  | unsettle hs => exact .inl hv
  | configure config => exact .inl hv

/-- Moves keep a ledger sound. -/
theorem Move.sound {l l' : Ledger V} (m : Move l l') (hl : l.Sound) : l'.Sound := by
  have e := m.effect hl
  refine ⟨e.tally countRule_covered hl hl.counted, fun p => (e.settled hl p).shared,
    fun p payload hp hzero => ?_, fun b n => e.anchored hl, fun p => e.known hl, fun v hv => ?_⟩
  · rcases (e.settled hl p).parts payload hp with ⟨-, hparts⟩ | ⟨hne, -⟩
    · exact hparts
    · exact absurd hzero hne
  · rcases m.has hv with hbefore | hnow
    · exact e.backed hl (hl.backed v hbefore) hv
    · exact hnow

/-- Whatever follows the rules of counting is kept by moves. -/
theorem Move.tally {R : Nat → Nat → Prop} (hR : CountRule R) {l l' : Ledger V} (m : Move l l')
    (hl : l.Sound) (ht : l.Tally R) : l'.Tally R :=
  (m.effect hl).tally hR hl ht

theorem Moves.sound {l l' : Ledger V} (ms : Moves l l') (hl : l.Sound) :
    l'.Sound := by
  induction ms with
  | refl => exact hl
  | tail _ m ih => exact m.sound ih

theorem Moves.tally {R : Nat → Nat → Prop} (hR : CountRule R) {l l' : Ledger V} (ms : Moves l l')
    (hl : l.Sound) (ht : l.Tally R) : l'.Tally R := by
  induction ms with
  | refl => exact ht
  | tail ms m ih => exact m.tally hR (Moves.sound ms hl) ih

/-- Moves neither give a count to a block that has none, nor take all of it from one that has. -/
theorem Moves.expired_iff {l l' : Ledger V} (ms : Moves l l') (hl : l.Sound) (b : BlockId)
    (n : Nat) : l'.heap.shape? b = some (0, n) ↔ l.heap.shape? b = some (0, n) := by
  induction ms with
  | refl => exact Iff.rfl
  | tail ms m ih => exact ((m.effect (Moves.sound ms hl)).expired_iff b n).trans ih

/-- A ledger before anything has happened is sound. -/
theorem Ledger.sound_empty (system : System) : (Ledger.empty system : Ledger V).Sound := by
  have hrefs : (Ledger.empty system : Ledger V).refs = 0 := rfl
  refine ⟨fun b c n hb => ?_, fun p payload hp => ?_, fun p payload hp => ?_, fun b n h => ?_,
    fun p h => ?_, fun v hv => ?_⟩
  · cases hb
  · cases hp
  · cases hp
  · exact absurd h (by rw [hrefs]; exact Multiset.notMem_zero _)
  · exact absurd h (by rw [hrefs]; exact Multiset.notMem_zero _)
  · rcases hv with hv | ⟨holder, hv⟩
    · exact absurd hv (Multiset.notMem_zero v)
    · exact absurd hv (Multiset.notMem_zero _)

/-- Setting a count by hand does no harm if it is zero then, or covers the owners. -/
theorem Ledger.Sound.setCount {h : Heap V} {os : Multiset (Owner V)} {w : Written V}
    (hl : Ledger.Sound ⟨h, os, w⟩) {b : BlockId} {n : Nat}
    (hn : Covered n (Ledger.ownersOf ⟨h, os, w⟩ b)) : Ledger.Sound ⟨h.setCount b n, os, w⟩ := by
  have hrefs : Ledger.refs ⟨h.setCount b n, os, w⟩ = Ledger.refs ⟨h, os, w⟩ :=
    Ledger.refs_setCount b n
  have hshape : (h.setCount b n).shape? =
      Function.update h.shape? b ((h.shape? b).map fun s => (n, s.2)) := by
    funext c
    rw [Heap.shape?, Heap.block?_setCount]
    by_cases hc : c = b
    · rw [if_pos hc, hc, Function.update_self, Heap.shape?, Option.map_map, Option.map_map]
      rfl
    · rw [if_neg hc, Function.update_of_ne hc]
      rfl
  refine ⟨hl.counted.of_update hshape (fun c _ => ?_) fun c m hc => ?_, fun p => ?_,
    hl.spent, fun c m hc => ?_, fun p hp => ?_, fun v hv => ?_⟩
  · rw [Ledger.ownersOf, hrefs, Ledger.ownersOf]
  · obtain ⟨before, -, hset⟩ := Option.map_eq_some_iff.mp hc
    cases hset
    rwa [Ledger.ownersOf, hrefs]
  · rw [Ledger.sharersOf, hrefs]
    exact hl.shared p
  · obtain ⟨k, hk⟩ := hl.anchored c m (hrefs ▸ hc)
    rw [hshape]
    by_cases hcb : c = b
    · rw [hcb] at hk ⊢
      exact ⟨n, by rw [Function.update_self, hk]; rfl⟩
    · exact ⟨k, by rwa [Function.update_of_ne hcb]⟩
  · exact hl.known p (hrefs ▸ hp)
  · refine hl.backed v (hv.imp_left fun hheld => ?_)
    rwa [Heap.held_setCount] at hheld

end CountedCells

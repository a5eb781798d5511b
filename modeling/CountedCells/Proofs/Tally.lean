import CountedCells.Proofs.Effect

/-!
# Tallies: counts follow the owners

`Tally R` says of all blocks that count and number of owners are related by `R`. Every relation that
follows the rules of counting (`CountRule`) is kept by the effects that moves have. There are two of
interest: that a count is zero or covers the owners, which is part of soundness, and that it is the
number of owners.
-/

namespace CountedCells

variable {V : Type} [Host V] [Faced V]

/-! ## Counts follow the owners -/

namespace Ledger

variable {l l' : Ledger V}

omit [Faced V] in
/-- One more reference to a block is one more owner. -/
theorem ownersOf_self {b n : Nat} (hrefs : l'.refs = {.block b n} + l.refs) :
    l'.ownersOf b = l.ownersOf b + 1 := by
  rw [ownersOf, hrefs, Multiset.singleton_add]
  exact Multiset.countP_cons_of_pos l.refs rfl

omit [Faced V] in
/-- One more reference to something else is none. -/
theorem ownersOf_other {r : Ref} (hrefs : l'.refs = {r} + l.refs) {b : BlockId}
    (hb : r.block? ≠ some b) : l'.ownersOf b = l.ownersOf b := by
  rw [ownersOf, hrefs, Multiset.singleton_add]
  exact Multiset.countP_cons_of_neg l.refs hb

omit [Faced V] in
theorem sharersOf_self {p : PayloadId} (hrefs : l'.refs = {.payload p} + l.refs) :
    l'.sharersOf p = l.sharersOf p + 1 := by
  rw [sharersOf, hrefs, Multiset.singleton_add, Multiset.count_cons_self]
  rfl

omit [Faced V] in
theorem sharersOf_other {r : Ref} (hrefs : l'.refs = {r} + l.refs) {p : PayloadId}
    (hp : .payload p ≠ r) : l'.sharersOf p = l.sharersOf p := by
  rw [sharersOf, hrefs, Multiset.singleton_add, Multiset.count_cons_of_ne hp]
  rfl

omit [Faced V] in
/-- A reference that is about to be given back is not the only one of its kind if the heap holds
another. -/
theorem two_le_countP {h : Heap V} {os : Multiset (Owner V)} {w : Written V} {R : Ref → Prop}
    [DecidablePred R] {u : V} {r r' : Ref} (hu : u ∈ h.held) (hr : Host.ref u = some r) (hR : R r)
    (hR' : R r') : 2 ≤ (Ledger.refs ⟨h, {.ref r'} + os, w⟩).countP R := by
  have hinside : 0 < (h.held.filterMap Host.ref).countP R :=
    Multiset.countP_pos.mpr ⟨r, (Multiset.mem_filterMap _ _).mpr ⟨u, hu, hr⟩, hR⟩
  have houtside : 0 < (Owner.refs ({.ref r'} + os)).countP R := by
    refine Multiset.countP_pos.mpr ⟨r', ?_, hR'⟩
    rw [Owner.refs_add]
    exact Multiset.mem_add.mpr (.inl (Multiset.mem_singleton_self _))
  rw [refs_mk, Multiset.countP_add]
  omega

omit [Faced V] in
/-- Where only one block has changed, only that one has to be looked at. -/
theorem Tally.of_update {R : Nat → Nat → Prop} (ht : l.Tally R) {b₁ : BlockId}
    {shape : Option (Nat × Nat)}
    (hshape : l'.heap.shape? = Function.update l.heap.shape? b₁ shape)
    (howners : ∀ b, b ≠ b₁ → l'.ownersOf b = l.ownersOf b)
    (hself : ∀ c n, shape = some (c, n) → R c (l'.ownersOf b₁)) : l'.Tally R := by
  intro b c n hb
  rw [hshape] at hb
  by_cases hbb : b = b₁
  · rw [hbb, Function.update_self] at hb
    exact hbb ▸ hself c n hb
  · rw [Function.update_of_ne hbb] at hb
    rw [howners b hbb]
    exact ht b c n hb

omit [Faced V] in
theorem Tally.of_eq {R : Nat → Nat → Prop} (ht : l.Tally R)
    (hshape : l'.heap.shape? = l.heap.shape?) (howners : ∀ b, l'.ownersOf b = l.ownersOf b) :
    l'.Tally R := by
  intro b c n hb
  rw [howners]
  exact ht b c n (hshape ▸ hb)

end Ledger

theorem Ref.block?_ne {b₁ b n : Nat} (h : b ≠ b₁) : (Ref.block b₁ n).block? ≠ some b :=
  fun hb => h (Option.some_inj.mp hb).symm

theorem Ref.block?_payload_ne (p : PayloadId) (b : BlockId) : (Ref.payload p).block? ≠ some b :=
  Option.some_ne_none b ∘ Eq.symm

/-- The relations between count and owners that counting keeps up. -/
structure CountRule (R : Nat → Nat → Prop) : Prop where
  /-- a block is made with one owner -/
  fresh : R 1 1
  /-- a reference is taken, where the count can be raised -/
  more : ∀ {c o}, 0 < c → c + 1 < Config.countRange → R c o → R (c + 1) (o + 1)
  /-- a reference that is not the last is given back -/
  less : ∀ {c o}, R (c + 2) (o + 1) → R (c + 1) o
  /-- a reference to a block without a count is given back -/
  lapse : ∀ {o}, R 0 (o + 1) → R 0 o

theorem countRule_covered : CountRule Covered where
  fresh := ⟨.inr (Nat.le_refl 1), by decide⟩
  more := fun hc hroom h => ⟨.inr (Nat.succ_le_succ (h.1.resolve_left (Nat.ne_of_gt hc))), hroom⟩
  less := fun h => ⟨.inr (Nat.le_of_succ_le_succ (h.1.resolve_left (Nat.succ_ne_zero _))),
    Nat.lt_of_succ_lt h.2⟩
  lapse := fun h => ⟨.inl rfl, h.2⟩

/-- A block that is not there has no owners. -/
theorem ownersOf_eq_zero {l : Ledger V} (hl : l.Sound) {b : BlockId}
    (hb : l.heap.shape? b = none) : l.ownersOf b = 0 := by
  refine Multiset.countP_eq_zero.mpr fun r hr hrb => ?_
  cases r with
  | block c n =>
    obtain rfl : c = b := Option.some_inj.mp hrb
    obtain ⟨c, hc⟩ := hl.anchored _ n hr
    rw [hb] at hc
    cases hc
  | payload p => cases hrb

omit [Host V] in
theorem shape?_length (h : Heap V) : h.shape? h.blocks.length = none := by
  rw [Heap.shape?, Heap.block?, List.getElem?_eq_none (Nat.le_refl _)]
  rfl

/-- Whatever follows the rules of counting goes on to hold. -/
theorem Effect.tally {R : Nat → Nat → Prop} (hR : CountRule R) {l l' : Ledger V} (hl : l.Sound)
    (e : Effect l l') (ht : l.Tally R) : l'.Tally R := by
  cases e with
  | quiet hshape _ hrefs =>
    refine ht.of_eq hshape fun b => ?_
    rw [Ledger.ownersOf, hrefs]
    rfl
  | @made b₁ n₁ hb₁ hshape _ hrefs =>
    refine ht.of_update hshape
      (fun b hb => Ledger.ownersOf_other hrefs (Ref.block?_ne hb)) fun c n hc => ?_
    cases hc
    rw [Ledger.ownersOf_self hrefs, ownersOf_eq_zero hl (hb₁ ▸ shape?_length l.heap)]
    exact hR.fresh
  | @took b₁ c₁ n₁ _ hb₁ hpos hroom hshape _ hrefs =>
    refine ht.of_update hshape
      (fun b hb => Ledger.ownersOf_other hrefs (Ref.block?_ne hb)) fun c n hc => ?_
    cases hc
    rw [Ledger.ownersOf_self hrefs]
    exact hR.more hpos hroom (ht b₁ c₁ n₁ hb₁)
  | @gave b₁ c₁ n₁ hb₁ hshape _ hrefs =>
    refine ht.of_update hshape
      (fun b hb => (Ledger.ownersOf_other hrefs (Ref.block?_ne hb)).symm) fun c n hc => ?_
    cases hc
    have hbefore := ht b₁ _ _ hb₁
    rw [Ledger.ownersOf_self hrefs] at hbefore
    exact hR.less hbefore
  | @lapsed b₁ n₁ hb₁ hshape _ hrefs =>
    -- the block stays as it is, and still it is the one to look at
    have hsame : l'.heap.shape? = Function.update l.heap.shape? b₁ (some (0, n₁)) := by
      rw [hshape, ← hb₁, Function.update_eq_self]
    refine ht.of_update hsame
      (fun b hb => (Ledger.ownersOf_other hrefs (Ref.block?_ne hb)).symm) fun c n hc => ?_
    cases hc
    have hbefore := ht b₁ _ _ hb₁
    rw [Ledger.ownersOf_self hrefs] at hbefore
    exact hR.lapse hbefore
  | destroyed _ hshape _ hrefs =>
    refine ht.of_update hshape
      (fun b hb => (Ledger.ownersOf_other hrefs (Ref.block?_ne hb)).symm) fun c n hc => ?_
    cases hc
  | shared hshape _ hrefs =>
    exact ht.of_eq hshape fun b => Ledger.ownersOf_other hrefs (Ref.block?_payload_ne _ b)
  | reshared _ _ hshape _ hrefs =>
    refine ht.of_eq hshape fun b => ?_
    rcases hrefs with ⟨-, -, hrefs⟩ | ⟨-, hrefs⟩
    · exact Ledger.ownersOf_other hrefs (Ref.block?_payload_ne _ b)
    · exact (Ledger.ownersOf_other hrefs (Ref.block?_payload_ne _ b)).symm
  | cleared _ _ hshape _ hrefs =>
    exact ht.of_eq hshape fun b => (Ledger.ownersOf_other hrefs (Ref.block?_payload_ne _ b)).symm

omit [Faced V] in
/-- A count that is zero stays zero, and no other count becomes zero. -/
theorem Effect.expired_iff {l l' : Ledger V} (e : Effect l l') (b : BlockId) (n : Nat) :
    l'.heap.shape? b = some (0, n) ↔ l.heap.shape? b = some (0, n) := by
  have hupdate {b₁ : BlockId} {before after : Option (Nat × Nat)}
      (hshape : l'.heap.shape? = Function.update l.heap.shape? b₁ after)
      (hb₁ : l.heap.shape? b₁ = before) (hbefore : before ≠ some (0, n))
      (hafter : after ≠ some (0, n)) :
      l'.heap.shape? b = some (0, n) ↔ l.heap.shape? b = some (0, n) := by
    rw [hshape]
    by_cases hb : b = b₁
    · subst hb
      rw [Function.update_self, hb₁]
      exact iff_of_false hafter hbefore
    · rw [Function.update_of_ne hb]
  cases e with
  | quiet hshape _ _ => rw [hshape]
  | made hb hshape _ _ =>
    exact hupdate hshape ((congrArg _ hb).trans (shape?_length _)) (by simp) (by simp)
  | took _ hb hc _ hshape _ _ =>
    exact hupdate hshape hb (by rintro ⟨⟩; exact absurd hc (Nat.lt_irrefl 0)) (by simp)
  | gave hb hshape _ _ => exact hupdate hshape hb (by simp) (by simp)
  | lapsed _ hshape _ _ => rw [hshape]
  | destroyed hb hshape _ _ => exact hupdate hshape hb (by simp) (by simp)
  | shared hshape _ _ => rw [hshape]
  | reshared _ _ hshape _ _ => rw [hshape]
  | cleared _ _ hshape _ _ => rw [hshape]

/-! ## Exact counts -/

/-- A count is the number of owners, and there is one. -/
def Exactly (count owners : Nat) : Prop := count = owners ∧ 0 < count

theorem countRule_exactly : CountRule Exactly where
  fresh := ⟨rfl, Nat.one_pos⟩
  more := fun _ _ h => ⟨congrArg Nat.succ h.1, Nat.succ_pos _⟩
  less := fun h => ⟨Nat.succ_injective h.1, Nat.succ_pos _⟩
  lapse := fun h => absurd h.2 (Nat.lt_irrefl 0)

/-- All counts are the numbers of owners, and every block that is there has one. -/
def Ledger.Exact (l : Ledger V) : Prop := l.Tally Exactly

/-- With exact counts a block is there as long as it has owners, and no longer. -/
theorem Ledger.Exact.block?_eq_none_iff {l : Ledger V} (hl : l.Sound) (he : l.Exact) (b : BlockId) :
    l.heap.block? b = none ↔ l.ownersOf b = 0 := by
  constructor
  · intro hb
    refine ownersOf_eq_zero hl ?_
    rw [Heap.shape?, hb]
    rfl
  · intro hb
    by_contra hsome
    obtain ⟨block, hblock⟩ := Option.ne_none_iff_exists'.mp hsome
    obtain ⟨hcount, hpos⟩ := he b _ _ (Heap.shape?_eq hblock)
    omega

end CountedCells

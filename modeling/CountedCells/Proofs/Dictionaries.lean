import CountedCells.Datum.KeySet
import CountedCells.Proofs.Equality
import CountedCells.Proofs.Refinement
import CountedCells.Proofs.Safety

/-!
# Dictionaries: keys are lawful, and dictionaries are finite maps

Three lists of cases say what a key is: `Datum.isHashable`, `Datum.feed?` and `Datum.key?`. They
agree on all values, equality is an equivalence on what they admit, and equal keys feed the same
numbers to a hash. None of this looks at a heap, so it cannot change while the key is there; and a
key that is a pointer keeps its block there (`Ledger.Steadfast`), so no other block ever takes its
place.

Hence a dictionary is a finite map, whatever was inserted in whatever order (`Entries.MapOf`).
`Term.Inserts` tells how the entries of a term are evaluated and inserted one after the other. A
value that cannot be a key is noticed when its turn comes, and everything evaluated until then is
dropped.
-/

namespace CountedCells

/-! ## What can be hashed -/

namespace Datum

theorem feed?_eq_none_iff {d : Datum} : d.feed? = none ↔ d.isHashable = false := by
  cases d <;> simp [feed?, isHashable]

theorem key?_eq_none_iff {d : Datum} : d.key? = none ↔ d.isHashable = false := by
  cases d <;> simp [key?, isHashable]

/-- What has a hash is a key, and the other way round. -/
theorem isHashable_iff {d : Datum} : d.isHashable = true ↔ ∃ k : Key, d = k.datum := by
  rw [← not_iff_not, Bool.not_eq_true, ← key?_eq_none_iff, Option.eq_none_iff_forall_ne_some,
    not_exists]
  exact forall_congr' fun k => not_congr key?_eq_some_iff

theorem feed?_datum (k : Key) : k.datum.feed? = some k.feed := by
  cases k <;> rfl

/-- Keys are equal if they are equal as values. -/
theorem same_datum (k l : Key) : k.datum.same l.datum = (k == l) := by
  show k.datum.same l.datum = k.same l
  cases k <;> cases l <;> simp [Key.datum, same, Key.same]

end Datum

/-- Equality of keys as values is an equivalence, and equal keys have one hash. -/
structure Key.Lawful : Prop where
  /-- a value has no hash exactly if it cannot be a key -/
  hashable : ∀ d : Datum, (d.feed? = none ↔ d.isHashable = false) ∧
    (d.key? = none ↔ d.isHashable = false)
  /-- what can be a key is equal to itself -/
  refl : ∀ d : Datum, d.isHashable = true → d.same d = true
  /-- equality can be turned round -/
  symm : ∀ d e : Datum, d.isHashable = true → e.isHashable = true → d.same e = true →
    e.same d = true
  /-- equality goes on -/
  trans : ∀ d e f : Datum, d.isHashable = true → e.isHashable = true → f.isHashable = true →
    d.same e = true → e.same f = true → d.same f = true
  /-- what is equal feeds the same numbers -/
  feed : ∀ d e : Datum, d.isHashable = true → e.isHashable = true → d.same e = true →
    d.feed? = e.feed?

theorem Key.lawful : Key.Lawful where
  hashable _ := ⟨Datum.feed?_eq_none_iff, Datum.key?_eq_none_iff⟩
  refl d hd := by
    obtain ⟨k, rfl⟩ := Datum.isHashable_iff.mp hd
    rw [Datum.same_datum]
    exact BEq.rfl
  symm d e hd he := by
    obtain ⟨k, rfl⟩ := Datum.isHashable_iff.mp hd
    obtain ⟨l, rfl⟩ := Datum.isHashable_iff.mp he
    rw [Datum.same_datum, Datum.same_datum]
    exact BEq.symm
  trans d e f hd he hf := by
    obtain ⟨k, rfl⟩ := Datum.isHashable_iff.mp hd
    obtain ⟨l, rfl⟩ := Datum.isHashable_iff.mp he
    obtain ⟨m, rfl⟩ := Datum.isHashable_iff.mp hf
    rw [Datum.same_datum, Datum.same_datum, Datum.same_datum]
    exact BEq.trans
  feed d e hd he h := by
    obtain ⟨k, rfl⟩ := Datum.isHashable_iff.mp hd
    obtain ⟨l, rfl⟩ := Datum.isHashable_iff.mp he
    rw [Datum.same_datum] at h
    rw [Datum.feed?_datum, Datum.feed?_datum, Key.feed_eq_of_same h]

/-! ## Sets of keys -/

namespace KeySet

/-- Keys as the entries of a finite map. -/
def marked (ks : List Key) : List (Key × Unit) := ks.map (·, ())

@[simp] theorem fst_marked (ks : List Key) : (marked ks).map Prod.fst = ks := by
  rw [marked, List.map_map]
  exact List.map_id _

@[simp] theorem marked_fst (es : List (Key × Unit)) : marked (es.map Prod.fst) = es := by
  rw [marked, List.map_map]
  exact List.map_id _

variable {s : KeySet} {added : List Key}

theorem has_iff {k : Key} : s.has k = true ↔ ((marked s.keys).lookup k).isSome = true := by
  rw [Entries.isSome_lookup_iff, fst_marked, has, List.any_eq_true]

/-- A set of keys changes as a finite map does. -/
theorem marked_insert (s : KeySet) (k : Key) :
    marked (s.insert k).2.keys = Entries.put k () (marked s.keys) := by
  rw [← marked_fst (Entries.put k () (marked s.keys)), Entries.fst_put, fst_marked, insert]
  by_cases h : s.has k = true
  · rw [if_pos h, if_pos (has_iff.mp h)]
  · rw [if_neg h, if_neg (has_iff.not.mp h)]

/-- The set is what is left of inserting the keys: the first of each class of equal keys. -/
def Of (added : List Key) (s : KeySet) : Prop := Entries.MapOf (marked added) (marked s.keys)

theorem of_nil : Of [] {} := Entries.mapOf_nil

theorem Of.has_iff (h : Of added s) {k : Key} : s.has k = true ↔ ∃ l ∈ added, l == k := by
  rw [KeySet.has_iff, Entries.MapOf.isSome_lookup_iff h, fst_marked]

theorem Of.insert (h : Of added s) (k : Key) : Of (added ++ [k]) (s.insert k).2 := by
  rw [Of, marked, List.map_append, marked_insert]
  exact Entries.MapOf.put h k ()

/-- A key is new exactly if no equal key was inserted before. -/
theorem Of.fst_insert (h : Of added s) (k : Key) : (s.insert k).1 = !added.any (· == k) := by
  have hfresh : (s.insert k).1 = !s.has k := by
    rw [KeySet.insert]
    cases s.has k <;> rfl
  rw [hfresh, Bool.eq_iff_iff.mpr (h.has_iff.trans List.any_eq_true.symm)]

/-- The set has one key for each class of equal keys. -/
theorem Of.size_eq (h : Of added s) : s.size = (Entries.classes added).card := by
  have hlength := Entries.MapOf.length h
  rw [fst_marked, marked, List.length_map] at hlength
  exact hlength

/-- Of values that are inserted one by one, those that can be keys make up the set. -/
theorem Of.insertAll (h : Of added s) (ds : List Datum) :
    Of (added ++ ds.filterMap Datum.key?) (s.insertAll ds).2 := by
  induction ds generalizing added s with
  | nil => exact (List.append_nil added).symm ▸ h
  | cons d ds ih =>
    rcases hk : d.key? with - | k
    · rw [List.filterMap_cons_none hk, KeySet.insertAll, hk]
      exact ih h
    · rw [List.filterMap_cons_some hk, KeySet.insertAll, hk, List.append_cons]
      exact ih (h.insert k)

/-- Of values that are inserted one by one, each that can be a key is reported as new exactly if it
is the first of its class, and of the others there is no such report. -/
theorem Of.fst_insertAll (h : Of added s) (ds : List Datum) (i : Nat) :
    (s.insertAll ds).1[i]? = ds[i]?.map fun d => d.key?.map fun k =>
      !(added ++ (ds.take i).filterMap Datum.key?).any (· == k) := by
  induction ds generalizing added s i with
  | nil => rfl
  | cons d ds ih =>
    rcases hk : d.key? with - | k
    · rw [KeySet.insertAll, hk]
      cases i with
      | zero => simp [hk]
      | succ i => simp [hk, ih h]
    · rw [KeySet.insertAll, hk]
      cases i with
      | zero => simp [hk, h.fst_insert]
      | succ i => simp [hk, ih (h.insert k)]

end KeySet

/-! ## Dictionaries -/

namespace DictParts

/-- A key is new in a dictionary exactly if nothing is displaced. -/
theorem insert_fst_eq_nil_iff (k : Key) (kv v : Value) (parts : DictParts) :
    (insert k kv v parts).1 = [] ↔ (List.lookup k parts).isSome = false := by
  rw [insert]
  rcases List.lookup k parts with - | ⟨first, old⟩ <;> simp

/-- What is found after an insertion: a key that was there keeps its first form. -/
theorem lookup_insert (k : Key) (kv v : Value) (parts : DictParts) (l : Key) :
    List.lookup l (insert k kv v parts).2 =
      if l == k then some (((List.lookup k parts).map Prod.fst).getD kv, v)
      else List.lookup l parts := by
  rw [insert]
  rcases List.lookup k parts with - | ⟨first, old⟩ <;> exact Entries.lookup_put ..

end DictParts

namespace Term

open Attempt

/-- The entries of a term are evaluated from left to right, from the heap `h` on, and each is
inserted: what was inserted under which key, what the dictionary has, and the heap then. -/
inductive Inserts (r : Registers Value) (h : Heap Value) :
    List (Term × Term) → List (Key × Value × Value) → DictParts → Heap Value → Prop where
  /-- nothing is inserted yet -/
  | nil : Inserts r h [] [] [] h
  /-- one more entry is evaluated, key first, and inserted; what it displaces is dropped -/
  | concat {es : List (Term × Term)} {added : List (Key × Value × Value)} {parts : DictParts}
      {h₁ h₂ h₃ : Heap Value} {kt t : Term} {kv v : Value} {k : Key}
      (hes : Inserts r h es added parts h₁) (hkey : kt.eval r h₁ = (.ok kv, h₂))
      (hvalue : t.eval r h₂ = (.ok v, h₃)) (hk : kv.datum.key? = some k) :
      Inserts r h (es ++ [(kt, t)]) (added ++ [(k, kv, v)]) (DictParts.insert k kv v parts).2
        (h₃.dropAll (DictParts.insert k kv v parts).1)

variable {r : Registers Value} {h h₁ h₂ h₃ : Heap Value} {es : List (Term × Term)}
  {added : List (Key × Value × Value)} {parts : DictParts}

/-- Entries are evaluated one part after the other. -/
theorem evalEntries_append (r : Registers Value) (got : DictParts) (es fs : List (Term × Term)) :
    evalEntries r got (es ++ fs) =
      evalEntries r got es >>= fun parts => evalEntries r parts fs := by
  induction es generalizing got with
  | nil =>
    rw [List.nil_append, evalEntries, pure_bind]
  | cons e es ih =>
    obtain ⟨kt, t⟩ := e
    rw [List.cons_append, evalEntries, evalEntries, bind_assoc]
    refine bind_congr fun kv => ?_
    rw [bind_assoc]
    refine bind_congr fun v => ?_
    cases kv.datum.key? with
    | none => rfl
    | some k =>
      rw [bind_assoc]
      exact bind_congr fun _ => ih _

theorem orElseUndo_of_ok {α : Type} {act : Evaluation Value α} {undo : Heap Value → Heap Value}
    {a : α} (hact : act h = (.ok a, h₁)) : act.orElseUndo undo h = (.ok a, h₁) := by
  rw [orElseUndo, hact]

theorem of_orElseUndo {α : Type} {act : Evaluation Value α} {undo : Heap Value → Heap Value}
    {a : α} (hact : act.orElseUndo undo h = (.ok a, h₁)) : act h = (.ok a, h₁) := by
  rw [orElseUndo] at hact
  rcases hrun : act h with ⟨e | b, h'⟩
  · rw [hrun] at hact
    cases hact
  · rw [hrun] at hact
    exact hact

/-- The next entry is evaluated, key first. If the key can be none, everything is dropped. -/
theorem evalEntries_next {got : DictParts} {kt t : Term} {kv v : Value}
    (hes : evalEntries r got es h = (.ok parts, h₁)) (hkey : kt.eval r h₁ = (.ok kv, h₂))
    (hvalue : t.eval r h₂ = (.ok v, h₃)) (fs : List (Term × Term)) :
    evalEntries r got (es ++ (kt, t) :: fs) h =
      match kv.datum.key? with
      | none => (.error (.unhashable kv.datum), ((h₃.drop v).drop kv).dropAll parts.values)
      | some k => evalEntries r (DictParts.insert k kv v parts).2 fs
        (h₃.dropAll (DictParts.insert k kv v parts).1) := by
  rw [evalEntries_append, bind_of_ok hes, evalEntries, bind_of_ok (orElseUndo_of_ok hkey),
    bind_of_ok (orElseUndo_of_ok hvalue)]
  cases kv.datum.key? <;> rfl

theorem Inserts.evalEntries_eq (hi : Inserts r h es added parts h₁) :
    evalEntries r [] es h = (.ok parts, h₁) := by
  induction hi with
  | nil => rw [evalEntries, pure_apply]
  | concat hes hkey hvalue hk ih =>
    rw [evalEntries_next ih hkey hvalue, hk]
    simp only [evalEntries, pure_apply]

/-- Entries that are evaluated are inserted one after the other. -/
theorem exists_inserts (hes : evalEntries r [] es h = (.ok parts, h₁)) :
    ∃ added, Inserts r h es added parts h₁ := by
  induction es using List.reverseRecOn generalizing parts h₁ with
  | nil =>
    rw [evalEntries, pure_apply] at hes
    cases hes
    exact ⟨[], .nil⟩
  | append_singleton es e ih =>
    obtain ⟨kt, t⟩ := e
    rw [evalEntries_append] at hes
    obtain ⟨got, h', hgot, hlast⟩ := bind_eq_ok hes
    obtain ⟨added, hadded⟩ := ih hgot
    rw [evalEntries] at hlast
    obtain ⟨kv, h₂, hkv, hlast⟩ := bind_eq_ok hlast
    obtain ⟨v, h₃, hv, hlast⟩ := bind_eq_ok hlast
    have hkey := of_orElseUndo hkv
    have hvalue := of_orElseUndo hv
    rcases hk : kv.datum.key? with - | k
    · rw [hk] at hlast
      cases hlast
    · rw [hk] at hlast
      simp only [evalEntries] at hlast
      cases hlast
      exact ⟨_, hadded.concat hkey hvalue hk⟩

/-- The dictionary is what is left of the insertions as a finite map. -/
theorem Inserts.mapOf (hi : Inserts r h es added parts h₁) :
    Entries.MapOf (added.map fun e => (e.1, e.2.2.datum)) parts.faces := by
  induction hi with
  | nil => exact Entries.mapOf_nil
  | concat hes hkey hvalue hk ih =>
    rw [List.map_append, DictParts.faces_insert]
    exact ih.put _ _

/-- The value under a key is the last that was inserted, next to the first form of the key. -/
theorem Inserts.lookup (hi : Inserts r h es added parts h₁) (l : Key) :
    List.lookup l parts = (added.find? fun e => e.1 == l).bind fun first =>
      (added.reverse.find? fun e => e.1 == l).map fun last => (first.2.1, last.2.2) := by
  induction hi with
  | nil => rfl
  | @concat es added parts h₁ h₂ h₃ kt t kv v k hes hkey hvalue hk ih =>
    have hcomm : (k == l) = (l == k) := BEq.comm
    rw [DictParts.lookup_insert, List.find?_append, List.reverse_append, List.reverse_singleton,
      List.singleton_append, List.find?_singleton, List.find?_cons, hcomm]
    cases hlk : l == k
    · rw [if_neg Bool.false_ne_true, if_neg Bool.false_ne_true, Option.or_none]
      exact ih
    · -- whatever was found under the key before was inserted first under an equal key
      have hfound : List.lookup k parts = List.lookup l parts :=
        Entries.lookup_congr (BEq.symm hlk) parts
      rw [if_pos rfl, if_pos rfl, hfound, ih]
      cases hfirst : added.find? fun e => e.1 == l with
      | none => rfl
      | some first =>
        have hlast : (added.reverse.find? fun e => e.1 == l).isSome = true := by
          rw [List.find?_isSome]
          have hfirstkey := List.find?_some hfirst
          exact ⟨first, List.mem_reverse.mpr (List.mem_of_find?_eq_some hfirst), hfirstkey⟩
        obtain ⟨last, hlast⟩ := Option.isSome_iff_exists.mp hlast
        rw [hlast]
        rfl

end Term

/-! ## Keys in a session -/

namespace Datum

/-- A pointer that is a key anywhere in a value is held by it. -/
theorem Within.holds {p : Pointer} {d : Datum} (h : (Key.pointer p).datum.Within d) :
    d.Holds p := by
  induction h with
  | self => exact .here
  | inside hd _ ih => exact .inside hd ih

end Datum

/-- Keys that are equal are the same, but for the number of cells that a pointer tells. -/
theorem Key.eq_of_beq {k l : Key} (h : k == l) :
    k = l ∨ ∃ b m n, k = .pointer (.cells b m) ∧ l = .pointer (.cells b n) := by
  have hcanonical := Key.beq_iff.mp h
  cases k with
  | pointer p =>
    cases l with
    | pointer q =>
      cases p with
      | null => cases q <;> simp_all [canonical]
      | cells b m => cases q <;> simp_all [canonical]
    | _ => cases p <;> simp [canonical] at hcanonical
  | _ =>
    cases l with
    | pointer q => cases q <;> simp [canonical] at hcanonical
    | _ => exact .inl hcanonical

/-- The keys in values that somebody has denote what they denoted when they were made. -/
structure Heap.KeepsKeys (h : Heap Value) (has : Value → Prop) : Prop where
  /-- the block of a pointer is there, with the number of cells that the pointer tells -/
  there : ∀ (v : Value) (b : BlockId) (n : Nat), has v →
    (Key.pointer (.cells b n)).datum.Within v.datum →
    ∃ block, h.block? b = some block ∧ block.size = n
  /-- keys are equal only if they are the same -/
  same : ∀ (v w : Value) (k l : Key), has v → has w → k.datum.Within v.datum →
    l.datum.Within w.datum → (k == l ↔ k = l)
  /-- a block that is made then is none of those that are keys -/
  fresh : ∀ (v : Value) (k : Key) (n : Nat) (b : BlockId) (h' : Heap Value), has v →
    k.datum.Within v.datum → Heap.allocate n h = (.ok b, h') →
    (k == Key.pointer (.cells b n)) = false

theorem Heap.KeepsKeys.mono {h : Heap Value} {has has' : Value → Prop} (hk : h.KeepsKeys has)
    (hsub : ∀ v, has' v → has v) : h.KeepsKeys has' where
  there v b n hv := hk.there v b n (hsub v hv)
  same v w k l hv hw := hk.same v w k l (hsub v hv) (hsub w hw)
  fresh v k n b h' hv := hk.fresh v k n b h' (hsub v hv)

theorem Ledger.Safe.keepsKeys {l : Ledger Value} (hl : l.Safe) : l.heap.KeepsKeys l.Has := by
  have hthere : ∀ (v : Value) (b : BlockId) (n : Nat), l.Has v →
      (Key.pointer (.cells b n)).datum.Within v.datum →
      ∃ block, l.heap.block? b = some block ∧ block.size = n := fun v b n hv hk =>
    (hl.inside v _ hv hk.holds b n rfl).2.1
  refine ⟨hthere, fun v w k m hv hw hk hm => ⟨fun heq => ?_, fun h => h ▸ BEq.rfl⟩,
    fun v k n b h' hv hk hb => ?_⟩
  · rcases Key.eq_of_beq heq with h | ⟨b, i, j, rfl, rfl⟩
    · exact h
    · -- one block has one number of cells
      obtain ⟨block, hblock, rfl⟩ := hthere v b i hv hk
      obtain ⟨block', hblock', rfl⟩ := hthere w b j hw hm
      obtain rfl := Option.some.inj (hblock.symm.trans hblock')
      rfl
  · -- the number of the new block is beyond those of all blocks that are there
    have hnumber : b = l.heap.blocks.length := by
      rw [Heap.allocate] at hb
      split at hb
      · cases hb
      · cases hb
        rfl
    refine Bool.eq_false_iff.mpr fun heq => ?_
    have hkey : ∃ m, k = .pointer (.cells b m) := by
      rcases Key.eq_of_beq heq with h | ⟨c, i, j, rfl, hc⟩
      · exact ⟨n, h⟩
      · cases hc
        exact ⟨i, rfl⟩
    obtain ⟨m, rfl⟩ := hkey
    obtain ⟨block, hblock, -⟩ := hthere v b m hv hk
    exact absurd (Heap.lt_of_block? hblock) (hnumber ▸ Nat.lt_irrefl _)

/-! ### Writing leaves variables alone -/

namespace Act

variable {α β : Type}

/-- Whatever the act does, the variables hold what they held. -/
def KeepsVariables (act : Act Value α) : Prop := ∀ s, (act s).2.values = s.values

theorem keepsVariables_find (f : Session Value → Except Failure α) :
    KeepsVariables (Attempt.find f) := fun _ => rfl

theorem keepsVariables_run (act : Evaluation Value α) : KeepsVariables (run act) := fun _ => rfl

theorem KeepsVariables.bind {act : Act Value α} {f : α → Act Value β} (hact : KeepsVariables act)
    (hf : ∀ a, KeepsVariables (f a)) : KeepsVariables (act >>= f) := fun s => by
  rcases hrun : act s with ⟨e | a, s'⟩
  · rw [Attempt.bind_of_error hrun, ← hact s, hrun]
  · rw [Attempt.bind_of_ok hrun, hf a s', ← hact s, hrun]

theorem keepsVariables_withValue (t : Term) {body : Value → Act Value α}
    (hbody : ∀ v, KeepsVariables (body v)) : KeepsVariables (withValue t body) := by
  refine KeepsVariables.bind (fun _ => rfl) fun v s => ?_
  rw [Attempt.andFinally_apply]
  exact hbody v s

theorem keepsVariables_setThrough (name : String) (p : Pointer) (v : Value) :
    KeepsVariables (setThrough name p v) := by
  refine KeepsVariables.bind (keepsVariables_run _) fun out => ?_
  obtain ⟨q, outcome⟩ := out
  refine KeepsVariables.bind (fun _ => rfl) fun _ => ?_
  cases outcome <;> exact fun _ => rfl

theorem keepsVariables_rawWithCell (name : String) (i : Nat) :
    KeepsVariables (rawWithCell (V := Value) name i) := by
  refine KeepsVariables.bind (keepsVariables_find _) fun u => ?_
  split <;> exact fun _ => rfl

end Act

/-- Commands that write to cells leave the variables alone. -/
theorem Session.values_stepValue_of_writes (s : Session Value) {c : ValueCommand} (hc : c.Writes) :
    (s.stepValue c).2.values = s.values := by
  cases c with
  | common c =>
    rw [stepValue_common]
    show (Act.ofCommand c s).2.values = s.values
    have hpure : ∀ a : Answer Value, Act.KeepsVariables (pure a) := fun _ _ => rfl
    cases c with
    | set h t =>
      exact (Act.keepsVariables_find _).bind (fun p => (Act.keepsVariables_withValue t
        (Act.keepsVariables_setThrough h p)).bind fun _ => hpure _) s
    | setAt h i t =>
      exact (Act.keepsVariables_find _).bind (fun p => (Act.keepsVariables_withValue t
        fun v => Act.keepsVariables_run _).bind fun _ => hpure _) s
    | swap a b =>
      exact (Act.keepsVariables_find _).bind (fun p => (Act.keepsVariables_find _).bind fun q =>
        (Act.keepsVariables_run _).bind fun _ => hpure _) s
    | rawStore u i t =>
      exact (Act.keepsVariables_rawWithCell u i).bind (fun w => (Act.keepsVariables_withValue t
        fun v => Act.keepsVariables_run _).bind fun _ => hpure _) s
    | rawSwap a i b j =>
      exact (Act.keepsVariables_rawWithCell a i).bind (fun v =>
        (Act.keepsVariables_rawWithCell b j).bind fun w =>
          Act.KeepsVariables.bind (fun _ => rfl) fun _ => hpure _) s
    | _ => exact absurd hc id
  | _ => exact absurd hc id

/-! ## The laws -/

/-- What evaluating the dictionaries of terms comes to, whatever the registers and the heap. -/
structure Term.DictLaws (r : Registers Value) (h : Heap Value) : Prop where
  /-- a dictionary that is there is what is left of its insertions as a finite map -/
  map : ∀ es v h', (Term.dict es).eval r h = (.ok v, h') →
    ∃ added parts h₁, Inserts r h es added parts h₁ ∧ v.datum = .dict parts.faces ∧
      Entries.MapOf (added.map fun e => (e.1, e.2.2.datum)) parts.faces
  /-- what is found under a key is the last value, next to the first form of the key -/
  lookup : ∀ es added parts h₁, Inserts r h es added parts h₁ → ∀ k,
    List.lookup k parts = (added.find? fun e => e.1 == k).bind fun first =>
      (added.reverse.find? fun e => e.1 == k).map fun last => (first.2.1, last.2.2)
  /-- nothing is displaced exactly by the first key of a class -/
  fresh : ∀ es added parts h₁, Inserts r h es added parts h₁ → ∀ k kv v,
    (DictParts.insert k kv v parts).1 = [] ↔ ∀ e ∈ added, (e.1 == k) = false
  /-- entries whose keys can be keys make a dictionary -/
  builds : ∀ es added parts h₁, Inserts r h es added parts h₁ →
    (Term.dict es).eval r h = (.ok (Value.dict parts h₁).1, (Value.dict parts h₁).2)
  /-- the first key that cannot be one is an error, whatever comes after it -/
  unhashable : ∀ es added parts h₁ h₂ h₃ kt t kv v, Inserts r h es added parts h₁ →
    kt.eval r h₁ = (.ok kv, h₂) → t.eval r h₂ = (.ok v, h₃) → kv.datum.isHashable = false →
    ∀ fs, (Term.dict (es ++ (kt, t) :: fs)).eval r h =
      (.error (.unhashable kv.datum), ((h₃.drop v).drop kv).dropAll parts.values)

theorem Term.dictLaws (r : Registers Value) (h : Heap Value) : Term.DictLaws r h where
  map es v h' hv := by
    rw [eval] at hv
    obtain ⟨parts, h₁, hparts, hv⟩ := Attempt.bind_eq_ok hv
    obtain ⟨added, hadded⟩ := exists_inserts hparts
    cases hv
    exact ⟨added, parts, h₁, hadded, rfl, hadded.mapOf⟩
  lookup es added parts h₁ hi := hi.lookup
  fresh es added parts h₁ hi k kv v := by
    have hfaces : (parts.faces.lookup k).isSome = (List.lookup k parts).isSome := by
      rw [DictParts.faces, Entries.lookup_mapValues, Option.isSome_map]
    rw [DictParts.insert_fst_eq_nil_iff, ← hfaces, ← Bool.not_eq_true, hi.mapOf.isSome_lookup_iff]
    simp
  builds es added parts h₁ hi := by
    rw [eval, Attempt.bind_of_ok hi.evalEntries_eq]
    rfl
  unhashable es added parts h₁ h₂ h₃ kt t kv v hi hkey hvalue hkv fs := by
    have hnext := evalEntries_next hi.evalEntries_eq hkey hvalue fs
    rw [Datum.key?_eq_none_iff.mpr hkv] at hnext
    rw [eval, Attempt.bind_of_error hnext]

/-- Keys are lawful, and dictionaries are finite maps. In every session that a careful run reaches,
the keys in values keep their blocks there and are equal only if they are the same, while commands
run as well; writing to cells does not touch what variables hold. So a dictionary has, for each
class of equal keys that were inserted, the first of them with the last value; a set of keys counts
the classes; and what cannot be a key is an error. -/
theorem Reached.dictionaries_are_maps {s : Session Value}
    (hs : Reached Session.stepValue ValueCommand.Careful s) :
    Key.Lawful ∧
    s.heap.KeepsKeys s.Has ∧
    (∀ c : ValueCommand, c.Steady → c.Careful s →
      s.Throughout (fun l => l.heap.KeepsKeys l.Has) (s.stepValue c).2) ∧
    (∀ c : ValueCommand, c.Writes → (s.stepValue c).2.values = s.values) ∧
    (∀ (r : Registers Value) (h : Heap Value), Term.DictLaws r h) ∧
    (∀ added : List (Key × Datum), Entries.MapOf added (Entries.filled added)) ∧
    ∀ ds : List Datum,
      (KeySet.insertAll {} ds).2.Of (ds.filterMap Datum.key?) ∧
      (KeySet.insertAll {} ds).2.size = (Entries.classes (ds.filterMap Datum.key?)).card ∧
      ∀ i : Nat, (KeySet.insertAll {} ds).1[i]? = ds[i]?.map fun d : Datum => d.key?.map fun k =>
        !((ds.take i).filterMap Datum.key?).any (· == k) := by
  obtain ⟨w, hw⟩ := hs.inOrder
  refine ⟨Key.lawful, (hw.safe .refl).keepsKeys.mono fun v hv => hv.ledger, fun c hc hcareful => ?_,
    fun c hc => s.values_stepValue_of_writes hc, Term.dictLaws, Entries.mapOf_filled,
    fun ds => ⟨KeySet.of_nil.insertAll ds, ?_, KeySet.of_nil.fst_insertAll ds⟩⟩
  · obtain ⟨w', -, hmoves⟩ := hw.step hc hcareful.sensible
    exact .of_moves hmoves fun l hl => (hw.safe hl).keepsKeys
  · exact (KeySet.of_nil.insertAll ds).size_eq

/-- A pointer is a key twice, and keeps its block when no handle is left. -/
theorem pointer_key_keeps_block :
    let s := Session.runValue [.common (.allocate "a" (.int 5)),
      .common (.define "x" (.dict [(.handle "a", .int 1), (.handle "a", .int 2)])),
      .common (.drop "a")] (.empty (.ofMemory 100))
    s.heap.count 0 = 1 ∧ s.heap.KeepsKeys s.Has ∧
      ∃ v, s.values.lookup "x" = some v ∧
        (v.datum == .dict [(.pointer (.cells 0 1), .int 2)]) = true := by
  intro s
  have hs : Reached Session.stepValue ValueCommand.Careful s :=
    (((Reached.start _).step trivial).step trivial).step trivial
  exact ⟨by decide +kernel, hs.dictionaries_are_maps.2.1, by decide +kernel⟩

end CountedCells

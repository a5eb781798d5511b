import CountedCells.Entries
import Mathlib.Tactic

/-!
# Maps: keyed lists as finite maps

Keys need not be compared by what they are: keys of dictionaries are one if their comparison says
so, whatever else they carry. All that is asked of the comparison here is that it is an
equivalence.

In a list that is filled by `Entries.put` no two keys are equal (`Entries.Distinct`). Such a list
is a finite map, and nothing but lookups can tell two of them apart: lists of one length in which
every entry of the first is found in the second are found in one another key by key
(`Entries.agree_iff`), although the comparison asks about the entries of one side only.

What a list holds after any number of insertions is told by `Entries.MapOf`: the last value that was
put under a key, the first form that the key had, and one entry for each class of equal keys.
-/

namespace CountedCells.Entries

variable {κ α β γ : Type} [BEq κ]

/-- No two keys are equal. -/
def Distinct (es : List (κ × α)) : Prop := es.Pairwise fun e f => (e.1 == f.1) = false

/-- Whatever is looked up is in neither list, or in both with related values. -/
def Agree (R : α → β → Prop) (es : List (κ × α)) (fs : List (κ × β)) : Prop :=
  ∀ k, Option.Rel R (es.lookup k) (fs.lookup k)

/-- What is found is an entry, under an equal key. -/
theorem exists_mem_of_lookup {k : κ} {a : α} {es : List (κ × α)} (h : es.lookup k = some a) :
    ∃ e ∈ es, k == e.1 ∧ e.2 = a := by
  induction es with
  | nil => cases h
  | cons f es ih =>
    rw [List.lookup_cons] at h
    split at h
    · rename_i hk
      cases h
      exact ⟨f, List.mem_cons_self, hk, rfl⟩
    · obtain ⟨e, he, hke⟩ := ih h
      exact ⟨e, List.mem_cons_of_mem _ he, hke⟩

section

variable {R : α → β → Prop} {es : List (κ × α)} {fs : List (κ × β)}

theorem Agree.mono {S : α → β → Prop} (h : Agree R es fs)
    (hRS : ∀ e ∈ es, ∀ f ∈ fs, R e.2 f.2 → S e.2 f.2) : Agree S es fs := fun k => by
  have hk := h k
  generalize hx : es.lookup k = x, hy : fs.lookup k = y at hk
  cases hk with
  | some hab =>
    obtain ⟨e, he, -, rfl⟩ := exists_mem_of_lookup hx
    obtain ⟨f, hf, -, rfl⟩ := exists_mem_of_lookup hy
    exact .some (hRS e he f hf hab)
  | none => exact .none

theorem Agree.swap (h : Agree R es fs) : Agree (fun b a => R a b) fs es := fun k => by
  have hk := h k
  generalize es.lookup k = x, fs.lookup k = y at hk
  cases hk with
  | some hab => exact .some hab
  | none => exact .none

theorem Agree.comp {S : β → γ → Prop} {gs : List (κ × γ)} (h : Agree R es fs)
    (h' : Agree S fs gs) : Agree (fun a c => ∃ b, R a b ∧ S b c) es gs := fun k => by
  have hk := h k
  have hk' := h' k
  generalize es.lookup k = x, fs.lookup k = y, gs.lookup k = z at hk hk'
  cases hk with
  | some hab =>
    cases hk' with
    | some hbc => exact .some ⟨_, hab, hbc⟩
  | none =>
    cases hk'
    exact .none

end

/-- Lists agree if the same keys are found in both, with related values. -/
theorem agree_iff_lookup {R : α → β → Prop} {es : List (κ × α)} {fs : List (κ × β)} :
    Agree R es fs ↔ ∀ k, (es.lookup k = none ↔ fs.lookup k = none) ∧
      ∀ a b, es.lookup k = some a → fs.lookup k = some b → R a b := by
  refine forall_congr' fun k => ?_
  cases es.lookup k <;> cases fs.lookup k <;> simp

theorem agree_refl {R : α → α → Prop} {es : List (κ × α)} (h : ∀ e ∈ es, R e.2 e.2) :
    Agree R es es := fun k => by
  rcases hk : es.lookup k with - | a
  · exact .none
  · obtain ⟨e, he, -, rfl⟩ := exists_mem_of_lookup hk
    exact .some (h e he)

/-- The entries after a change are the new value and entries that were there before. -/
theorem eq_or_mem_of_mem_put {k : κ} {a : α} {e : κ × α} {es : List (κ × α)}
    (h : e ∈ put k a es) : e.2 = a ∨ e ∈ es := by
  induction es with
  | nil =>
    obtain rfl := List.mem_singleton.mp h
    exact .inl rfl
  | cons e' rest ih =>
    obtain ⟨k', a'⟩ := e'
    rw [put] at h
    split at h <;> rcases List.mem_cons.mp h with rfl | h
    · exact .inl rfl
    · exact .inr (List.mem_cons_of_mem _ h)
    · exact .inr List.mem_cons_self
    · exact (ih h).imp_right (List.mem_cons_of_mem _)

theorem distinct_nil : Distinct ([] : List (κ × α)) := List.Pairwise.nil

theorem distinct_iff {es : List (κ × α)} :
    Distinct es ↔ (es.map Prod.fst).Pairwise fun k l => (k == l) = false := by
  rw [List.pairwise_map]
  rfl

/-- What is left after a removal was there before. -/
theorem mem_of_mem_remove {k : κ} {e : κ × α} {es : List (κ × α)} (h : e ∈ remove k es) :
    e ∈ es := by
  induction es with
  | nil => exact h
  | cons f es ih =>
    rw [remove] at h
    split at h
    · exact List.mem_cons_of_mem _ h
    · exact (List.mem_cons.mp h).elim (fun h => h ▸ List.mem_cons_self)
        fun h => List.mem_cons_of_mem _ (ih h)

theorem Distinct.remove {es : List (κ × α)} (h : Distinct es) (k : κ) :
    Distinct (remove k es) := by
  induction es with
  | nil => exact h
  | cons e es ih =>
    obtain ⟨he, hes⟩ := List.pairwise_cons.mp h
    rw [Entries.remove]
    split
    · exact hes
    · exact List.pairwise_cons.mpr ⟨fun f hf => he f (mem_of_mem_remove hf), ih hes⟩

variable [EquivBEq κ]

/-! ## Lookups -/

/-- Equal keys are looked up alike. -/
theorem lookup_congr {k l : κ} (h : k == l) (es : List (κ × α)) : es.lookup k = es.lookup l := by
  induction es with
  | nil => rfl
  | cons e es ih => rw [List.lookup_cons, List.lookup_cons, BEq.congr_left h, ih]

theorem lookup_eq_none_of_distinct {k : κ} {a : α} {es : List (κ × α)}
    (h : Distinct ((k, a) :: es)) {l : κ} (hl : l == k) : es.lookup l = none := by
  refine List.lookup_eq_none_iff.mpr fun e he => ?_
  rw [bne, BEq.congr_left hl, (List.pairwise_cons.mp h).1 e he]
  rfl

/-- An entry is what is found under its key. -/
theorem Distinct.lookup_of_mem {es : List (κ × α)} (h : Distinct es) {e : κ × α} (he : e ∈ es) :
    es.lookup e.1 = some e.2 := by
  induction es with
  | nil => cases he
  | cons f es ih =>
    obtain ⟨hf, hes⟩ := List.pairwise_cons.mp h
    rw [List.lookup_cons]
    rcases List.mem_cons.mp he with rfl | he
    · rw [BEq.rfl]
    · rw [BEq.comm, hf e he]
      exact ih hes he

/-- A map that agrees with itself relates each of its values to itself. -/
theorem Agree.self {R : α → α → Prop} {es : List (κ × α)} (h : Agree R es es) (hes : Distinct es)
    {e : κ × α} (he : e ∈ es) : R e.2 e.2 := by
  have hk := h e.1
  rw [hes.lookup_of_mem he] at hk
  cases hk with
  | some h => exact h

/-! ## Putting an entry -/

theorem lookup_put (k : κ) (a : α) (es : List (κ × α)) (l : κ) :
    (put k a es).lookup l = if l == k then some a else es.lookup l := by
  induction es with
  | nil =>
    rw [put, List.lookup_cons]
    cases l == k <;> rfl
  | cons e es ih =>
    obtain ⟨k', a'⟩ := e
    rw [put]
    split
    · rename_i hk
      rw [List.lookup_cons, List.lookup_cons, BEq.congr_right hk]
      cases l == k <;> rfl
    · rename_i hk
      rw [List.lookup_cons, List.lookup_cons, ih]
      split
      · rename_i hl
        -- the key that is put is another one than the head, so the head is what is found
        have hlk : (l == k) = false := by
          rw [BEq.congr_left hl]
          exact Bool.eq_false_iff.mpr hk
        rw [hlk]
        rfl
      · rfl

/-- The keys stay as they are, but for a new key at the end. -/
theorem fst_put (k : κ) (a : α) (es : List (κ × α)) :
    (put k a es).map Prod.fst =
      if (es.lookup k).isSome then es.map Prod.fst else es.map Prod.fst ++ [k] := by
  induction es with
  | nil => rfl
  | cons e es ih =>
    obtain ⟨k', a'⟩ := e
    rw [put, List.lookup_cons, BEq.comm]
    cases hk : k == k'
    · simp only [Bool.false_eq_true, if_false, List.map_cons, ih]
      split <;> rfl
    · rfl

/-- Putting entries one by one makes no two keys equal. -/
theorem Distinct.put {es : List (κ × α)} (h : Distinct es) (k : κ) (a : α) :
    Distinct (put k a es) := by
  rw [distinct_iff, fst_put]
  split
  · exact distinct_iff.mp h
  · rename_i hk
    refine List.pairwise_append.mpr ⟨distinct_iff.mp h, List.pairwise_singleton _ _, ?_⟩
    intro l hl m hm
    obtain ⟨e, he, rfl⟩ := List.mem_map.mp hl
    obtain rfl := List.mem_singleton.mp hm
    have hnone := List.lookup_eq_none_iff.mp (Option.not_isSome_iff_eq_none.mp hk) e he
    rw [BEq.comm]
    simpa [bne] using hnone

/-! ## Removing an entry -/

theorem Distinct.lookup_remove {es : List (κ × α)} (h : Distinct es) (k l : κ) :
    (Entries.remove k es).lookup l = if l == k then none else es.lookup l := by
  induction es with
  | nil =>
    rw [Entries.remove]
    split <;> rfl
  | cons e es ih =>
    obtain ⟨k', a'⟩ := e
    have hes := (List.pairwise_cons.mp h).2
    rw [Entries.remove]
    split
    · rename_i hk
      rw [List.lookup_cons, ← BEq.congr_right hk]
      split
      · rename_i hl
        exact lookup_eq_none_of_distinct h hl
      · rename_i hl
        rw [Bool.eq_false_iff.mpr hl]
    · rename_i hk
      rw [List.lookup_cons, List.lookup_cons, ih hes]
      split
      · rename_i hl
        have hlk : (l == k) = false := by
          rw [BEq.congr_left hl]
          exact Bool.eq_false_iff.mpr hk
        rw [hlk]
        rfl
      · rfl

theorem length_remove {es : List (κ × α)} {k : κ} {a : α} (h : es.lookup k = some a) :
    (remove k es).length + 1 = es.length := by
  induction es with
  | nil => cases h
  | cons e es ih =>
    rw [List.lookup_cons, BEq.comm] at h
    rw [remove]
    split at h
    · rename_i hk
      rw [if_pos hk]
      rfl
    · rename_i hk
      rw [if_neg (Bool.eq_false_iff.mp hk), List.length_cons, List.length_cons, ih h]

/-! ## Finite maps -/

/-- A first entry is found in the other list, and the rest agrees with the rest. -/
theorem agree_cons {R : α → β → Prop} {k : κ} {a : α} {es : List (κ × α)} {fs : List (κ × β)}
    (hes : Distinct ((k, a) :: es)) (hfs : Distinct fs) :
    Agree R ((k, a) :: es) fs ↔
      (∃ b, fs.lookup k = some b ∧ R a b) ∧ Agree R es (remove k fs) := by
  constructor
  · intro h
    refine ⟨?_, fun l => ?_⟩
    · have hk := h k
      rw [List.lookup_cons, BEq.rfl] at hk
      generalize fs.lookup k = found at hk
      cases hk with
      | some hab => exact ⟨_, rfl, hab⟩
    · have hl := h l
      rw [List.lookup_cons] at hl
      rw [hfs.lookup_remove]
      split
      · rename_i hlk
        rw [lookup_eq_none_of_distinct hes hlk]
        exact .none
      · rename_i hlk
        rwa [Bool.eq_false_iff.mpr hlk] at hl
  · rintro ⟨⟨b, hb, hab⟩, h⟩ l
    have hl := h l
    rw [hfs.lookup_remove] at hl
    rw [List.lookup_cons]
    split
    · rename_i hlk
      rw [lookup_congr hlk, hb]
      exact .some hab
    · rename_i hlk
      rwa [hlk, if_neg Bool.false_ne_true] at hl

/-- Of two finite maps with equally many entries, the first is found in the second entry by entry
only if they agree on all keys. -/
theorem agree_iff {R : α → β → Prop} {es : List (κ × α)} {fs : List (κ × β)} (hes : Distinct es)
    (hfs : Distinct fs) :
    Agree R es fs ↔
      es.length = fs.length ∧ ∀ e ∈ es, ∃ b, fs.lookup e.1 = some b ∧ R e.2 b := by
  induction es generalizing fs with
  | nil =>
    cases fs with
    | nil => exact ⟨fun _ => ⟨rfl, by simp⟩, fun _ _ => .none⟩
    | cons f fs =>
      refine ⟨fun h => ?_, fun h => absurd h.1 (by simp)⟩
      have hf := h f.1
      rw [List.lookup_cons, BEq.rfl] at hf
      cases hf
  | cons e es ih =>
    obtain ⟨k, a⟩ := e
    obtain ⟨hk, htail⟩ := List.pairwise_cons.mp hes
    -- the other keys are looked up alike before and after the first one is taken out
    have hrest : ∀ e ∈ es, (remove k fs).lookup e.1 = fs.lookup e.1 := fun e he => by
      rw [hfs.lookup_remove, BEq.comm, hk e he]
      rfl
    rw [agree_cons hes hfs, ih htail (hfs.remove k), List.forall_mem_cons]
    constructor
    · rintro ⟨⟨b, hb, hab⟩, hlength, hfound⟩
      refine ⟨?_, ⟨b, hb, hab⟩, fun e he => hrest e he ▸ hfound e he⟩
      rw [List.length_cons, hlength, length_remove hb]
    · rintro ⟨hlength, ⟨b, hb, hab⟩, hfound⟩
      refine ⟨⟨b, hb, hab⟩, ?_, fun e he => (hrest e he).symm ▸ hfound e he⟩
      have hremove : (remove k fs).length + 1 = fs.length := length_remove hb
      exact Nat.add_right_cancel (hlength.trans hremove.symm)

/-! ## Any number of insertions -/

/-- The list that is filled by putting entries one by one. -/
def filled (added : List (κ × α)) : List (κ × α) :=
  added.foldl (fun es e => put e.1 e.2 es) []

/-- Keys up to equality. -/
def keySetoid (κ : Type) [BEq κ] [EquivBEq κ] : Setoid κ where
  r k l := k == l
  iseqv := ⟨fun _ => BEq.rfl, BEq.symm, BEq.trans⟩

instance decidableRelKeys : DecidableRel (keySetoid κ).r := fun k l =>
  inferInstanceAs (Decidable ((k == l) = true))

/-- The classes of equal keys among some keys. -/
def classes (ks : List κ) : Finset (Quotient (keySetoid κ)) :=
  (ks.map (Quotient.mk (keySetoid κ))).toFinset

/-- The list is what is left of the insertions as a finite map. -/
structure MapOf (added es : List (κ × α)) : Prop where
  /-- no two keys are equal -/
  distinct : Distinct es
  /-- what is found under a key was put there last, under an equal key -/
  last : ∀ k, es.lookup k = added.reverse.lookup k
  /-- a key is the first that was put among those equal to it -/
  first : ∀ l ∈ es.map Prod.fst, (added.map Prod.fst).find? (· == l) = some l
  /-- there is one entry for each class of equal keys -/
  length : es.length = (classes (added.map Prod.fst)).card

theorem mem_classes {k : κ} {ks : List κ} :
    Quotient.mk (keySetoid κ) k ∈ classes ks ↔ ∃ l ∈ ks, l == k := by
  rw [classes, List.mem_toFinset, List.mem_map]
  exact exists_congr fun l => and_congr_right fun _ => Quotient.eq (r := keySetoid κ)

theorem classes_concat (ks : List κ) (k : κ) :
    classes (ks ++ [k]) = insert (Quotient.mk (keySetoid κ) k) (classes ks) := by
  ext c
  simp only [classes, List.map_append, List.mem_toFinset, List.mem_append, Finset.mem_insert,
    List.map_cons, List.map_nil, List.mem_singleton]
  exact or_comm

theorem isSome_lookup_iff {k : κ} {es : List (κ × α)} :
    (es.lookup k).isSome ↔ ∃ l ∈ es.map Prod.fst, l == k := by
  constructor
  · intro h
    obtain ⟨a, ha⟩ := Option.isSome_iff_exists.mp h
    obtain ⟨e, he, hk, -⟩ := exists_mem_of_lookup ha
    exact ⟨e.1, List.mem_map_of_mem he, BEq.symm hk⟩
  · rintro ⟨l, hl, hlk⟩
    obtain ⟨e, he, rfl⟩ := List.mem_map.mp hl
    refine Option.ne_none_iff_isSome.mp fun hnone => ?_
    have hne := List.lookup_eq_none_iff.mp hnone e he
    rw [bne, BEq.symm hlk] at hne
    cases hne

/-- A key is found exactly if an equal one was put. -/
theorem MapOf.isSome_lookup_iff {added es : List (κ × α)} (h : MapOf added es) (k : κ) :
    (es.lookup k).isSome ↔ ∃ l ∈ added.map Prod.fst, l == k := by
  rw [h.last, Entries.isSome_lookup_iff]
  simp only [List.map_reverse, List.mem_reverse]

theorem mapOf_nil : MapOf ([] : List (κ × α)) [] := ⟨distinct_nil, fun _ => rfl, nofun, rfl⟩

/-- One more insertion. -/
theorem MapOf.put {added es : List (κ × α)} (h : MapOf added es) (k : κ) (a : α) :
    MapOf (added ++ [(k, a)]) (put k a es) where
  distinct := h.distinct.put k a
  last l := by
    rw [lookup_put, h.last, List.reverse_append, List.reverse_singleton, List.singleton_append,
      List.lookup_cons]
    cases l == k <;> rfl
  first l hl := by
    rw [List.map_append, List.find?_append]
    rw [fst_put] at hl
    -- the keys that were there are found first, and a new key is equal to none of them
    have hold (hl : l ∈ es.map Prod.fst) :
        ((added.map Prod.fst).find? (· == l)).or ([(k, a)].map Prod.fst |>.find? (· == l)) =
          some l := by
      rw [h.first l hl]
      rfl
    split at hl
    · exact hold hl
    · rename_i hnew
      rcases List.mem_append.mp hl with hl | hl
      · exact hold hl
      · obtain rfl := List.mem_singleton.mp hl
        have hnone : (added.map Prod.fst).find? (· == l) = none :=
          List.find?_eq_none.mpr fun m hm hml =>
            hnew ((h.isSome_lookup_iff l).mpr ⟨m, hm, hml⟩)
        rw [hnone, List.map_singleton, List.find?_singleton, BEq.rfl]
        rfl
  length := by
    have hlength : (Entries.put k a es).length =
        if (es.lookup k).isSome then es.length else es.length + 1 := by
      rw [← List.length_map Prod.fst, fst_put]
      split <;> simp
    have hmem : Quotient.mk (keySetoid κ) k ∈ classes (added.map Prod.fst) ↔
        (es.lookup k).isSome :=
      mem_classes.trans (h.isSome_lookup_iff k).symm
    rw [hlength, List.map_append, List.map_singleton, classes_concat]
    split
    · rename_i hsome
      rw [Finset.insert_eq_of_mem (hmem.mpr hsome), h.length]
    · rename_i hnew
      rw [Finset.card_insert_of_notMem (hmem.not.mpr hnew), h.length]

theorem mapOf_filled (added : List (κ × α)) : MapOf added (filled added) := by
  induction added using List.reverseRecOn with
  | nil => exact mapOf_nil
  | append_singleton added e ih =>
    rw [filled, List.foldl_append]
    exact ih.put e.1 e.2

end CountedCells.Entries

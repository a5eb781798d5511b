import CountedCells.Proofs.Dictionaries
import Mathlib.Data.String.Basic

/-!
# Records: names in order of first use, each with its last value

A record is built by adding fields one by one, and names may come again in any pattern. What is
left of the additions is a finite map (`Entries.MapOf`) whose names stand in the order in which
they were used first. `Record.Built` says so and is what one more field preserves; everything that
looks at a record follows from it, by name as well as by place.

Equality takes the fields of one side and looks them up in the other. No two fields of what was
built have one name, so it cannot see more than the two maps: neither their order nor the values
that were overwritten.

`Term.Adds` tells how the fields of a term are evaluated and added. What comes out is the record of
the additions.
-/

namespace CountedCells

/-! ## Building -/

namespace Record

variable {α β : Type} {name k : String} {added : List (String × α)} {r : Record α}

/-- The record is what is left of the additions: a finite map with its names in the order in which
they were used first. -/
structure Built (name : String) (added : List (String × α)) (r : Record α) : Prop where
  /-- the name of the type stays -/
  name : r.name = name
  /-- a name has its place where it was used first -/
  names : r.fields.map Prod.fst = (added.map Prod.fst).eraseDups
  /-- the fields are what is left of the additions as a finite map -/
  mapOf : Entries.MapOf added r.fields

theorem built_empty (name : String) : Built name ([] : List (String × α)) (empty name) :=
  ⟨rfl, rfl, Entries.mapOf_nil⟩

/-- One more field. -/
theorem Built.withField (h : Built name added r) (k : String) (a : α) :
    Built name (added ++ [(k, a)]) (r.withField k a) where
  name := h.name
  names := by
    show (Entries.put k a r.fields).map Prod.fst = _
    rw [Entries.keys_put, h.names, List.map_append, List.eraseDups_append]
    by_cases hk : k ∈ added.map Prod.fst
    · rw [if_pos (List.mem_eraseDups.mpr hk)]
      simp [List.removeAll, hk]
    · rw [if_neg (List.mem_eraseDups.not.mpr hk)]
      simp [List.removeAll, hk, List.eraseDups_cons]
  mapOf := h.mapOf.put k a

theorem ofFields_concat (name : String) (added : List (String × α)) (k : String) (a : α) :
    ofFields name (added ++ [(k, a)]) = (ofFields name added).withField k a := by
  rw [ofFields, List.foldl_append]
  rfl

theorem built_ofFields (name : String) (added : List (String × α)) :
    Built name added (ofFields name added) := by
  induction added using List.reverseRecOn with
  | nil => exact built_empty name
  | append_singleton added e ih =>
    obtain ⟨k, a⟩ := e
    rw [ofFields_concat]
    exact ih.withField k a

/-! ## Looking fields up -/

/-- Under a name is the value that was given to it last. -/
theorem Built.get?_eq (h : Built name added r) (k : String) :
    r.get? k = added.reverse.lookup k :=
  h.mapOf.last k

theorem Built.get?_eq_none_iff (h : Built name added r) :
    r.get? k = none ↔ k ∉ added.map Prod.fst := by
  rw [← Option.not_isSome_iff_eq_none, not_iff_not]
  refine (h.mapOf.isSome_lookup_iff k).trans ⟨?_, fun hk => ⟨k, hk, BEq.rfl⟩⟩
  rintro ⟨l, hl, hlk⟩
  exact eq_of_beq hlk ▸ hl

/-- There are as many fields as different names. -/
theorem Built.size_eq (h : Built name added r) :
    r.size = (added.map Prod.fst).toFinset.card := by
  have hnodup : (r.fields.map Prod.fst).Nodup :=
    (Entries.distinct_iff.mp h.mapOf.distinct).imp fun hkl => ne_of_beq_false hkl
  have hnames : (added.map Prod.fst).toFinset = (r.fields.map Prod.fst).toFinset := by
    ext k
    rw [h.names, List.mem_toFinset, List.mem_toFinset, List.mem_eraseDups]
  rw [hnames, List.toFinset_card_of_nodup hnodup, List.length_map, size]

/-- At a place is what is found under the name that stands there. -/
theorem Built.at?_eq (h : Built name added r) (i : Nat) :
    r.at? i = (added.map Prod.fst).eraseDups[i]?.bind r.get? := by
  rw [← h.names, List.getElem?_map, at?]
  cases hi : r.fields[i]? with
  | none => rfl
  | some e =>
    have hfound : r.get? e.1 = some e.2 := h.mapOf.distinct.lookup_of_mem (List.mem_of_getElem? hi)
    exact hfound.symm

theorem Built.at?_eq_none_iff (h : Built name added r) {i : Nat} :
    r.at? i = none ↔ (added.map Prod.fst).toFinset.card ≤ i := by
  rw [at?, Option.map_eq_none_iff, List.getElem?_eq_none_iff, ← h.size_eq, size]

/-- Changing the values that are added changes the values in the record, and nothing else. -/
theorem ofFields_mapValues (f : α → β) (name : String) (added : List (String × α)) :
    ofFields name (Entries.mapValues f added) =
      ⟨name, Entries.mapValues f (ofFields name added).fields⟩ := by
  induction added using List.reverseRecOn with
  | nil => rfl
  | append_singleton added e ih =>
    obtain ⟨k, a⟩ := e
    have hadded : Entries.mapValues f (added ++ [(k, a)]) =
        Entries.mapValues f added ++ [(k, f a)] := List.map_append
    rw [hadded, ofFields_concat, ofFields_concat, ih]
    show _ = Record.mk name (Entries.mapValues f (Entries.put k a _))
    rw [Entries.mapValues_put]
    rfl

/-! ## Equality -/

/-- Records are alike if they have one name and their fields agree. -/
theorem alike_iff {R : Datum → Datum → Prop} {r s : Record Datum} :
    Datum.Alike R r.datum s.datum ↔ r.name = s.name ∧ Entries.Agree R r.fields s.fields := by
  obtain ⟨m, fs⟩ := r
  obtain ⟨n, gs⟩ := s
  constructor
  · intro h
    cases h with
    | record _ h => exact ⟨rfl, h⟩
  · rintro ⟨rfl, h⟩
    exact .record m h

/-- Records that were built are equal if they have one name, the same names of fields, and equal
last values. -/
theorem Built.same_iff {m n : String} {xs ys : List (String × Datum)} {r s : Record Datum}
    (hr : Built m xs r) (hs : Built n ys s) :
    r.same s = true ↔
      m = n ∧ (∀ k, k ∈ xs.map Prod.fst ↔ k ∈ ys.map Prod.fst) ∧
        ∀ k d e, xs.reverse.lookup k = some d → ys.reverse.lookup k = some e →
          d.same e = true := by
  have hequal : r.same s = true ↔ Datum.Alike Datum.Equal r.datum s.datum :=
    Datum.equal_iff hr.mapOf.distinct hs.mapOf.distinct
  have hfields : Entries.Agree Datum.Equal r.fields s.fields ↔
      (∀ k, k ∈ xs.map Prod.fst ↔ k ∈ ys.map Prod.fst) ∧
        ∀ k d e, xs.reverse.lookup k = some d → ys.reverse.lookup k = some e →
          d.same e = true := by
    rw [Entries.agree_iff_lookup, forall_and]
    refine and_congr (forall_congr' fun k => ?_) (forall_congr' fun k => ?_)
    · exact (iff_congr hr.get?_eq_none_iff hs.get?_eq_none_iff).trans not_iff_not
    · rw [hr.mapOf.last, hs.mapOf.last]
      rfl
  rw [hequal, alike_iff, hfields, hr.name, hs.name]

end Record

/-! ## Evaluation -/

namespace Term

open Attempt

/-- The fields of a term are evaluated from left to right, from the heap `h` on, and each is added:
what was added under which name, and the heap then. -/
inductive Adds (r : Registers Value) (name : String) (h : Heap Value) :
    List (String × Term) → List (String × Value) → Heap Value → Prop where
  /-- nothing is added yet -/
  | nil : Adds r name h [] [] h
  /-- one more field is evaluated and added; the value that it displaces is dropped -/
  | concat {fs : List (String × Term)} {added : List (String × Value)} {h₁ h₂ : Heap Value}
      {k : String} {t : Term} {v : Value} (hfs : Adds r name h fs added h₁)
      (hvalue : t.eval r h₁ = (.ok v, h₂)) :
      Adds r name h (fs ++ [(k, t)]) (added ++ [(k, v)])
        (h₂.dropAll ((Record.ofFields name added).get? k).toList)

variable {r : Registers Value} {name : String} {h h₁ : Heap Value} {fs : List (String × Term)}
  {added : List (String × Value)}

/-- Fields are evaluated one part after the other. -/
theorem evalFields_append (r : Registers Value) (got : Record Value)
    (fs gs : List (String × Term)) :
    evalFields r got (fs ++ gs) = evalFields r got fs >>= fun got => evalFields r got gs := by
  induction fs generalizing got with
  | nil => rw [List.nil_append, evalFields, pure_bind]
  | cons f fs ih =>
    obtain ⟨k, t⟩ := f
    rw [List.cons_append, evalFields, evalFields, bind_assoc]
    refine bind_congr fun v => ?_
    rw [bind_assoc]
    exact bind_congr fun _ => ih _

theorem Adds.evalFields_eq (ha : Adds r name h fs added h₁) :
    evalFields r (.empty name) fs h = (.ok (.ofFields name added), h₁) := by
  induction ha with
  | nil => rw [evalFields, pure_apply]; rfl
  | concat hfs hvalue ih =>
    rw [evalFields_append, bind_of_ok ih, evalFields, bind_of_ok (orElseUndo_of_ok hvalue),
      Record.ofFields_concat]
    rfl

/-- Fields that are evaluated are added one after the other. -/
theorem exists_adds {rec : Record Value}
    (hfs : evalFields r (.empty name) fs h = (.ok rec, h₁)) :
    ∃ added, Adds r name h fs added h₁ ∧ rec = .ofFields name added := by
  induction fs using List.reverseRecOn generalizing rec h₁ with
  | nil =>
    rw [evalFields, pure_apply] at hfs
    cases hfs
    exact ⟨[], .nil, rfl⟩
  | append_singleton fs f ih =>
    obtain ⟨k, t⟩ := f
    rw [evalFields_append] at hfs
    obtain ⟨got, h', hgot, hlast⟩ := bind_eq_ok hfs
    obtain ⟨added, hadded, rfl⟩ := ih hgot
    rw [evalFields] at hlast
    obtain ⟨v, h₂, hv, hlast⟩ := bind_eq_ok hlast
    cases hlast
    exact ⟨_, hadded.concat (of_orElseUndo hv), (Record.ofFields_concat ..).symm⟩

/-- The value of a record is the record of what was added. -/
theorem eval_record_iff {v : Value} {h' : Heap Value} :
    (Term.record name fs).eval r h = (.ok v, h') ↔
      ∃ added h₁, Adds r name h fs added h₁ ∧ Value.record (.ofFields name added) h₁ = (v, h') := by
  rw [eval]
  constructor
  · intro hv
    obtain ⟨rec, h₁, hrec, hv⟩ := bind_eq_ok hv
    obtain ⟨added, hadded, rfl⟩ := exists_adds hrec
    cases hv
    exact ⟨added, h₁, hadded, rfl⟩
  · rintro ⟨added, h₁, hadded, hv⟩
    rw [bind_of_ok hadded.evalFields_eq, change_apply, hv]

end Term

/-- A record of values is seen as the record of what they express. -/
theorem Value.datum_record (name : String) (added : List (String × Value)) (h : Heap Value) :
    (Value.record (.ofFields name added) h).1.datum =
      (Record.ofFields name (Entries.mapValues Value.datum added)).datum := by
  rw [Record.ofFields_mapValues]
  show Datum.record (Record.ofFields name added).name _ = _
  rw [(Record.built_ofFields name added).name]
  rfl

/-! ## The laws -/

namespace Record

/-- What there is to see of a record after these additions, by name and by place. -/
structure Shows {α : Type} (name : String) (added : List (String × α)) (r : Record α) : Prop where
  /-- the name of the type stays -/
  name : r.name = name
  /-- the names of the fields stand in the order in which they were used first -/
  names : r.fields.map Prod.fst = (added.map Prod.fst).eraseDups
  /-- there are as many fields as different names -/
  size : r.size = (added.map Prod.fst).toFinset.card
  /-- under a name is the value that was given to it last -/
  last : ∀ k, r.get? k = added.reverse.lookup k
  /-- under a name that was not used is nothing -/
  missing : ∀ k, r.get? k = none ↔ k ∉ added.map Prod.fst
  /-- at a place is what is found under the name that stands there -/
  place : ∀ i : Nat, r.at? i = (added.map Prod.fst).eraseDups[i]?.bind r.get?
  /-- places end where the different names do -/
  beyond : ∀ i : Nat, r.at? i = none ↔ (added.map Prod.fst).toFinset.card ≤ i

theorem Built.shows {α : Type} {name : String} {added : List (String × α)} {r : Record α}
    (h : Built name added r) : r.Shows name added :=
  ⟨h.name, h.names, h.size_eq, h.get?_eq, fun _ => h.get?_eq_none_iff, h.at?_eq,
    fun _ => h.at?_eq_none_iff⟩

/-- A record lists its names in the order in which they were used first and has under each the
value that it was given last, and equality sees nothing but these last values. What a term of a
record is evaluated to is such a record. -/
theorem insertion_ordered :
    (∀ (α : Type) (name : String) (added : List (String × α)),
      (ofFields name added).Shows name added) ∧
    (∀ (m n : String) (xs ys : List (String × Datum)),
      (ofFields m xs).same (ofFields n ys) = true ↔
        m = n ∧ (∀ k, k ∈ xs.map Prod.fst ↔ k ∈ ys.map Prod.fst) ∧
          ∀ k d e, xs.reverse.lookup k = some d → ys.reverse.lookup k = some e →
            d.same e = true) ∧
    (∀ (r : Registers Value) (name : String) (fs : List (String × Term)) (h h' : Heap Value)
      (v : Value), (Term.record name fs).eval r h = (.ok v, h') ↔
        ∃ added h₁, Term.Adds r name h fs added h₁ ∧
          Value.record (ofFields name added) h₁ = (v, h')) ∧
    ∀ (name : String) (added : List (String × Value)) (h : Heap Value),
      (Value.record (ofFields name added) h).1.datum =
        (ofFields name (Entries.mapValues Value.datum added)).datum :=
  ⟨fun _ name added => (built_ofFields name added).shows,
    fun m n xs ys => (built_ofFields m xs).same_iff (built_ofFields n ys),
    fun _ _ _ _ _ _ => Term.eval_record_iff, Value.datum_record⟩

/-- Fields that were added in another order, one of them twice, stand in other places and make an
equal record, as long as the last values are equal. -/
theorem reordered_record_is_same :
    let r := ofFields "Pair" [("a", .int 1), ("b", .unit), ("a", .int 3)]
    let s := ofFields "Pair" [("b", .unit), ("a", .int 3)]
    let t := ofFields "Pair" [("b", .unit), ("a", .int 1)]
    r.at? 0 = some (Datum.int 3) ∧ s.at? 0 = some .unit ∧ r.at? 2 = none ∧
      r.same s = true ∧ ¬ r.same t = true := by
  intro r s t
  have hshows : r.Shows "Pair" [("a", .int 1), ("b", .unit), ("a", .int 3)] :=
    insertion_ordered.1 _ _ _
  refine ⟨rfl, rfl, (hshows.beyond 2).mpr (by decide), by decide +kernel, fun h => ?_⟩
  obtain ⟨-, -, hlast⟩ := (insertion_ordered.2.1 _ _ _ _).mp h
  exact absurd (hlast "a" (.int 3) (.int 1) rfl rfl) (by decide +kernel)

end Record

end CountedCells

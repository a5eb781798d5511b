import CountedCells.Proofs.Doubles
import CountedCells.Proofs.Face
import CountedCells.Proofs.Maps
import CountedCells.Proofs.Plain

/-!
# Equality: when values are equal

`Datum.same` compares records and dictionaries from one side: as many entries, and every entry of
the first is found equal in the second. That this is symmetric and transitive rests on names and
keys being different, at every depth (`Datum.Proper`); then both sides are finite maps that agree
on all keys (`Entries.agree_iff`).

`Datum.Alike` says what equality means one level down, given a relation for the parts. It passes
from a relation to its converse and along compositions, so symmetry and transitivity of `same` are
inductions over the parts. Reflexivity fails for a NaN, and for whatever has one inside, and for
nothing else.
-/

namespace CountedCells

/-! ## Keys -/

/-- One key for all that are equal: a pointer key stands for its address. -/
def Key.canonical : Key → Key
  | pointer (.cells b _) => pointer (.cells b 1)
  | k => k

/-- Keys are equal if they stand for the same. -/
theorem Key.beq_iff {k l : Key} : k == l ↔ k.canonical = l.canonical := by
  show k.same l = true ↔ _
  cases k with
  | pointer p =>
    cases l with
    | pointer q => cases p <;> cases q <;> simp [same, canonical, Pointer.same_iff, Pointer.address]
    | _ => cases p <;> simp [same, canonical]
  | _ =>
    cases l with
    | pointer q => cases q <;> simp [same, canonical]
    | _ => simp [same, canonical]

/-- Keys are compared by an equivalence. -/
instance : EquivBEq Key where
  symm h := Key.beq_iff.mpr (Key.beq_iff.mp h).symm
  trans h h' := Key.beq_iff.mpr ((Key.beq_iff.mp h).trans (Key.beq_iff.mp h'))
  rfl := Key.beq_iff.mpr rfl

namespace Datum

/-! ## Well-formed values -/

/-- Induction over the parts of values. -/
theorem induction_children {P : Datum → Prop} (h : ∀ d, (∀ c ∈ d.children, P c) → P d)
    (d : Datum) : P d :=
  h d fun c _ => induction_children h c
termination_by sizeOf d
decreasing_by exact sizeOf_lt_of_mem_children ‹_›

/-- A value is the other, or sits anywhere inside it. -/
inductive Within (c : Datum) : Datum → Prop where
  /-- the value is the other -/
  | self : Within c c
  /-- it is within a part -/
  | inside {d e : Datum} (hd : d ∈ e.children) (h : Within c d) : Within c e

/-- The names of a record are different, and so are the keys of a dictionary. -/
def Keyed : Datum → Prop
  | record _ fs => Entries.Distinct fs
  | dict es => Entries.Distinct es
  | _ => True

/-- Names and keys are different at any depth. -/
def Proper (d : Datum) : Prop := ∀ c : Datum, c.Within d → c.Keyed

/-- A NaN occurs at some depth. -/
def HasNaN (d : Datum) : Prop := ∃ x : Binary64, x.isNaN = true ∧ (float x).Within d

theorem Proper.keyed {d : Datum} (h : d.Proper) : d.Keyed := h d .self

theorem Proper.part {c d : Datum} (h : d.Proper) (hc : c ∈ d.children) : c.Proper :=
  fun b hb => h b (.inside hc hb)

theorem proper_of_parts {d : Datum} (hd : d.Keyed) (h : ∀ c ∈ d.children, c.Proper) : d.Proper := by
  rintro c (- | ⟨he, hc⟩)
  · exact hd
  · exact h _ he c hc

theorem proper_key (k : Key) : k.datum.Proper := by
  cases k <;> exact proper_of_parts trivial fun c hc => absurd hc List.not_mem_nil

theorem HasNaN.of_part {c d : Datum} (h : c.HasNaN) (hc : c ∈ d.children) : d.HasNaN :=
  let ⟨x, hx, hin⟩ := h
  ⟨x, hx, .inside hc hin⟩

/-- A NaN that occurs is the value itself, or occurs in a part. -/
theorem hasNaN_iff {d : Datum} :
    d.HasNaN ↔ (∃ x : Binary64, d = float x ∧ x.isNaN = true) ∨ ∃ c ∈ d.children, c.HasNaN := by
  constructor
  · rintro ⟨x, hx, - | ⟨hc, hin⟩⟩
    · exact .inl ⟨x, rfl, hx⟩
    · exact .inr ⟨_, hc, x, hx, hin⟩
  · rintro (⟨x, rfl, hx⟩ | ⟨c, hc, h⟩)
    · exact ⟨x, hx, .self⟩
    · exact h.of_part hc

/-! ## Equality one level down -/

/-- Values of one kind with one content, where their parts are compared by `R`: sequences item by
item, records and dictionaries as finite maps, doubles as numbers, pointers by address. -/
inductive Alike (R : Datum → Datum → Prop) : Datum → Datum → Prop where
  /-- the value without information is one -/
  | unit : Alike R unit unit
  /-- one truth value -/
  | bool (b : Bool) : Alike R (bool b) (bool b)
  /-- one character -/
  | char (c : Char) : Alike R (char c) (char c)
  /-- one integer -/
  | int (n : Int64) : Alike R (int n) (int n)
  /-- doubles that stand for one number -/
  | float {x y : Binary64} {n : Binary64.Number} (hx : x.number? = some n)
    (hy : y.number? = some n) : Alike R (float x) (float y)
  /-- one text -/
  | text (s : String) : Alike R (text s) (text s)
  /-- one string of bytes -/
  | bytes (bs : List UInt8) : Alike R (bytes bs) (bytes bs)
  /-- lists of one length, item by item -/
  | list {ds es : List Datum} (h : List.Forall₂ R ds es) : Alike R (list ds) (list es)
  /-- tuples of one length, item by item -/
  | tuple {ds es : List Datum} (h : List.Forall₂ R ds es) : Alike R (tuple ds) (tuple es)
  /-- records of one name, field by field in whatever order -/
  | record (name : String) {fs gs : List (String × Datum)} (h : Entries.Agree R fs gs) :
    Alike R (record name fs) (record name gs)
  /-- dictionaries, key by key in whatever order -/
  | dict {es fs : List (Key × Datum)} (h : Entries.Agree R es fs) : Alike R (dict es) (dict fs)
  /-- optional values that are missing -/
  | absent : Alike R absent absent
  /-- optional values that are there -/
  | present {d e : Datum} (h : R d e) : Alike R (present d) (present e)
  /-- pointers to one block, or null -/
  | pointer {p q : Pointer} (h : p.address = q.address) : Alike R (pointer p) (pointer q)

variable {R S : Datum → Datum → Prop} {a b c : Datum}

theorem Alike.kind_eq (h : Alike R a b) : a.kind = b.kind := by
  cases h <;> rfl

theorem forall₂_mono {ds es : List Datum} (h : List.Forall₂ R ds es)
    (hRS : ∀ d ∈ ds, ∀ e ∈ es, R d e → S d e) : List.Forall₂ S ds es := by
  induction h with
  | nil => exact .nil
  | cons hde _ ih =>
    exact .cons (hRS _ List.mem_cons_self _ List.mem_cons_self hde)
      (ih fun d hd e he => hRS d (List.mem_cons_of_mem _ hd) e (List.mem_cons_of_mem _ he))

theorem forall₂_comp {ds es fs : List Datum} (h : List.Forall₂ R ds es)
    (h' : List.Forall₂ S es fs) : List.Forall₂ (fun d f => ∃ e, R d e ∧ S e f) ds fs := by
  induction h generalizing fs with
  | nil =>
    cases h'
    exact .nil
  | cons hde _ ih =>
    cases h' with
    | cons hef hrest => exact .cons ⟨_, hde, hef⟩ (ih hrest)

/-- Only how the parts compare matters. -/
theorem Alike.mono (h : Alike R a b) (hRS : ∀ d ∈ a.children, ∀ e ∈ b.children, R d e → S d e) :
    Alike S a b := by
  cases h with
  | list h => exact .list (forall₂_mono h hRS)
  | tuple h => exact .tuple (forall₂_mono h hRS)
  | record name h =>
    refine .record name (h.mono fun e he f hf => ?_)
    exact hRS _ (List.mem_map_of_mem he) _ (List.mem_map_of_mem hf)
  | dict h =>
    refine .dict (h.mono fun e he f hf => hRS _ ?_ _ ?_)
    · exact List.mem_flatMap.mpr ⟨e, he, List.mem_cons_of_mem _ List.mem_cons_self⟩
    · exact List.mem_flatMap.mpr ⟨f, hf, List.mem_cons_of_mem _ List.mem_cons_self⟩
  | present h => exact .present (hRS _ List.mem_cons_self _ List.mem_cons_self h)
  | unit => exact .unit
  | bool b => exact .bool b
  | char c => exact .char c
  | int n => exact .int n
  | float hx hy => exact .float hx hy
  | text s => exact .text s
  | bytes bs => exact .bytes bs
  | absent => exact .absent
  | pointer h => exact .pointer h

theorem Alike.swap (h : Alike R a b) : Alike (fun d e => R e d) b a := by
  cases h with
  | list h => exact .list h.flip
  | tuple h => exact .tuple h.flip
  | record name h => exact .record name h.swap
  | dict h => exact .dict h.swap
  | present h => exact .present h
  | unit => exact .unit
  | bool b => exact .bool b
  | char c => exact .char c
  | int n => exact .int n
  | float hx hy => exact .float hy hx
  | text s => exact .text s
  | bytes bs => exact .bytes bs
  | absent => exact .absent
  | pointer h => exact .pointer h.symm

theorem Alike.comp (h : Alike R a b) (h' : Alike S b c) :
    Alike (fun d f => ∃ e, R d e ∧ S e f) a c := by
  cases h with
  | list h => cases h' with | list h' => exact .list (forall₂_comp h h')
  | tuple h => cases h' with | tuple h' => exact .tuple (forall₂_comp h h')
  | record name h => cases h' with | record _ h' => exact .record name (h.comp h')
  | dict h => cases h' with | dict h' => exact .dict (h.comp h')
  | present h => cases h' with | present h' => exact .present ⟨_, h, h'⟩
  | float hx hy =>
    cases h' with
    | float hy' hz =>
      obtain rfl := Option.some.inj (hy.symm.trans hy')
      exact .float hx hz
  | pointer h => cases h' with | pointer h' => exact .pointer (h.trans h')
  | _ => exact h'.mono fun _ hd => absurd hd List.not_mem_nil

/-- A value is like itself if its parts are related to themselves, and only then, as far as they
are no keys; a NaN is not. -/
theorem alike_self_iff (ha : a.Keyed) (hkey : ∀ k : Key, R k.datum k.datum) :
    Alike R a a ↔ (∀ x, a = float x → x.isNaN = false) ∧ ∀ c ∈ a.children, R c c := by
  have hleaf (h : Alike R a a) (hparts : a.children = []) (hne : ∀ x, a ≠ float x) :
      Alike R a a ↔ (∀ x, a = float x → x.isNaN = false) ∧ ∀ c ∈ a.children, R c c :=
    iff_of_true h ⟨fun x hx => absurd hx (hne x), fun c hc => by
      rw [hparts] at hc
      cases hc⟩
  cases a with
  | unit => exact hleaf .unit rfl nofun
  | bool b => exact hleaf (.bool b) rfl nofun
  | char c => exact hleaf (.char c) rfl nofun
  | int n => exact hleaf (.int n) rfl nofun
  | text s => exact hleaf (.text s) rfl nofun
  | bytes bs => exact hleaf (.bytes bs) rfl nofun
  | absent => exact hleaf .absent rfl nofun
  | pointer p => exact hleaf (.pointer rfl) rfl nofun
  | float x =>
    constructor
    · rintro ⟨⟩
      rename_i n hx _
      refine ⟨fun y hy => Bool.eq_false_iff.mpr fun hnan => ?_, fun c hc => by cases hc⟩
      cases hy
      rw [Binary64.number?_eq_none_iff.mpr hnan] at hx
      cases hx
    · rintro ⟨hnan, -⟩
      obtain ⟨n, hn⟩ := Option.ne_none_iff_exists'.mp
        (Binary64.number?_eq_none_iff.not.mpr (Bool.eq_false_iff.mp (hnan x rfl)))
      exact .float hn hn
  | list ds =>
    refine ⟨?_, fun h => .list (List.forall₂_same.mpr h.2)⟩
    rintro ⟨⟩
    exact ⟨nofun, List.forall₂_same.mp ‹_›⟩
  | tuple ds =>
    refine ⟨?_, fun h => .tuple (List.forall₂_same.mpr h.2)⟩
    rintro ⟨⟩
    exact ⟨nofun, List.forall₂_same.mp ‹_›⟩
  | record name fs =>
    constructor
    · rintro ⟨⟩
      rename_i h
      refine ⟨nofun, fun c hc => ?_⟩
      obtain ⟨f, hf, rfl⟩ := List.mem_map.mp hc
      exact h.self ha hf
    · exact fun h => .record name (Entries.agree_refl fun f hf => h.2 _ (List.mem_map_of_mem hf))
  | dict es =>
    constructor
    · rintro ⟨⟩
      rename_i h
      refine ⟨nofun, fun c hc => ?_⟩
      obtain ⟨e, he, hc⟩ := List.mem_flatMap.mp hc
      rcases List.mem_cons.mp hc with rfl | hc
      · exact hkey e.1
      · obtain rfl := List.mem_singleton.mp hc
        exact h.self ha he
    · refine fun h => .dict (Entries.agree_refl fun e he => h.2 _ ?_)
      exact List.mem_flatMap.mpr ⟨e, he, List.mem_cons_of_mem _ List.mem_cons_self⟩
  | present d =>
    constructor
    · rintro ⟨⟩
      rename_i h
      refine ⟨nofun, fun c hc => ?_⟩
      obtain rfl := List.mem_singleton.mp hc
      exact h
    · exact fun h => .present (h.2 _ List.mem_cons_self)

/-! ## The comparison -/

/-- Values are equal. -/
def Equal (d e : Datum) : Prop := d.same e = true

theorem sameItems_iff (ds es : List Datum) :
    sameItems ds es = true ↔ List.Forall₂ Equal ds es := by
  induction ds generalizing es with
  | nil => cases es <;> simp [sameItems]
  | cons d ds ih => cases es <;> simp [sameItems, Equal, ih]

theorem sameFields_iff (fs gs : List (String × Datum)) :
    sameFields fs gs = true ↔
      ∀ e ∈ fs, ∃ d, gs.lookup e.1 = some d ∧ Equal e.2 d := by
  induction fs with
  | nil => simp [sameFields]
  | cons e fs ih =>
    rw [sameFields, Bool.and_eq_true, ih, List.forall_mem_cons]
    cases gs.lookup e.1 <;> simp [Equal]

theorem sameEntries_iff (es fs : List (Key × Datum)) :
    sameEntries es fs = true ↔
      ∀ e ∈ es, ∃ d, fs.lookup e.1 = some d ∧ Equal e.2 d := by
  induction es with
  | nil => simp [sameEntries]
  | cons e es ih =>
    rw [sameEntries, Bool.and_eq_true, ih, List.forall_mem_cons]
    cases fs.lookup e.1 <;> simp [Equal]

/-- Equality of values with different names and keys, one level down. -/
theorem equal_iff (ha : a.Keyed) (hb : b.Keyed) : Equal a b ↔ Alike Equal a b := by
  rw [Equal]
  fun_cases same a b
  case case1 => exact iff_of_true rfl .unit
  case case12 => exact iff_of_true rfl .absent
  case case2 x y => exact beq_iff_eq.trans ⟨fun h => h ▸ .bool x, fun h => by cases h; rfl⟩
  case case3 x y => exact beq_iff_eq.trans ⟨fun h => h ▸ .char x, fun h => by cases h; rfl⟩
  case case4 x y => exact beq_iff_eq.trans ⟨fun h => h ▸ .int x, fun h => by cases h; rfl⟩
  case case6 x y => exact beq_iff_eq.trans ⟨fun h => h ▸ .text x, fun h => by cases h; rfl⟩
  case case7 x y => exact beq_iff_eq.trans ⟨fun h => h ▸ .bytes x, fun h => by cases h; rfl⟩
  case case5 x y =>
    rw [Binary64.numEq_iff]
    exact ⟨fun ⟨n, hx, hy⟩ => .float hx hy,
      fun h => by cases h with | float hx hy => exact ⟨_, hx, hy⟩⟩
  case case8 ds es =>
    rw [sameItems_iff]
    exact ⟨.list, fun h => by cases h with | list h => exact h⟩
  case case9 ds es =>
    rw [sameItems_iff]
    exact ⟨.tuple, fun h => by cases h with | tuple h => exact h⟩
  case case10 m fs n gs =>
    rw [Bool.and_eq_true, Bool.and_eq_true, beq_iff_eq, beq_iff_eq, sameFields_iff, and_assoc,
      ← Entries.agree_iff ha hb]
    exact ⟨fun ⟨hname, h⟩ => hname ▸ .record m h,
      fun h => by cases h with | record _ h => exact ⟨rfl, h⟩⟩
  case case11 es fs =>
    rw [Bool.and_eq_true, beq_iff_eq, sameEntries_iff, ← Entries.agree_iff ha hb]
    exact ⟨.dict, fun h => by cases h with | dict h => exact h⟩
  case case13 d e => exact ⟨fun h => .present h, fun h => by cases h with | present h => exact h⟩
  case case14 p q =>
    rw [Pointer.same_iff]
    exact ⟨.pointer, fun h => by cases h with | pointer h => exact h⟩
  case case15 =>
    -- values of different kinds
    refine iff_of_false Bool.false_ne_true fun h => ?_
    cases h <;> grind

/-- Equality is symmetric. -/
theorem Equal.symm (h : Equal a b) (ha : a.Proper) (hb : b.Proper) : Equal b a := by
  induction a using induction_children generalizing b with
  | h a ih =>
    rw [equal_iff ha.keyed hb.keyed] at h
    rw [equal_iff hb.keyed ha.keyed]
    exact h.swap.mono fun e he d hd hde => ih d hd hde (ha.part hd) (hb.part he)

/-- Equality is transitive. -/
theorem Equal.trans (h : Equal a b) (h' : Equal b c) (ha : a.Proper) (hb : b.Proper)
    (hc : c.Proper) : Equal a c := by
  induction a using induction_children generalizing b c with
  | h a ih =>
    rw [equal_iff ha.keyed hb.keyed] at h
    rw [equal_iff hb.keyed hc.keyed] at h'
    rw [equal_iff ha.keyed hc.keyed]
    -- the part in the middle is one of `b`
    have hmiddle : Alike (fun d e => e ∈ b.children ∧ Equal d e) a b :=
      h.mono fun d _ e he hde => ⟨he, hde⟩
    refine (hmiddle.comp h').mono fun d hd f hf hdf => ?_
    obtain ⟨e, ⟨he, hde⟩, hef⟩ := hdf
    exact ih d hd hde hef (ha.part hd) (hb.part he) (hc.part hf)

/-- A value is equal to itself unless a NaN occurs in it. -/
theorem equal_self_iff (ha : a.Proper) : Equal a a ↔ ¬ a.HasNaN := by
  induction a using induction_children with
  | h a ih =>
    have hkey (k : Key) : Equal k.datum k.datum := by
      cases k <;> simp [Equal, Key.datum, same, Pointer.same_iff]
    rw [equal_iff ha.keyed ha.keyed, alike_self_iff ha.keyed hkey, hasNaN_iff, not_or]
    refine and_congr ?_ ?_
    · constructor
      · rintro h ⟨x, hx, hnan⟩
        exact Bool.eq_false_iff.mp (h x hx) hnan
      · exact fun h x hx => Bool.eq_false_iff.mpr fun hnan => h ⟨x, hx, hnan⟩
    · rw [not_exists]
      simp only [not_and]
      exact forall₂_congr fun c hc => ih c hc (ha.part hc)

/-! ## Values that are written down -/

theorem proper_dict {es : List (Key × Datum)} (hes : Entries.Distinct es)
    (h : ∀ e ∈ es, e.2.Proper) : (dict es).Proper := by
  refine proper_of_parts hes fun c hc => ?_
  obtain ⟨e, he, hc⟩ := List.mem_flatMap.mp hc
  rcases List.mem_cons.mp hc with rfl | hc
  · exact proper_key e.1
  · obtain rfl := List.mem_singleton.mp hc
    exact h e he

theorem proper_record (name : String) {fs : List (String × Datum)} (hfs : Entries.Distinct fs)
    (h : ∀ e ∈ fs, e.2.Proper) : (record name fs).Proper := by
  refine proper_of_parts hfs fun c hc => ?_
  obtain ⟨e, he, rfl⟩ := List.mem_map.mp hc
  exact h e he

end Datum

namespace Term

open Datum

variable {r : Registers Datum}

/-- What succeeds in two steps succeeds in each. -/
theorem exists_of_bind {α β : Type} {x : Except Failure α} {f : α → Except Failure β} {b : β}
    (h : x >>= f = .ok b) : ∃ a, x = .ok a ∧ f a = .ok b := by
  cases x with
  | error e => cases h
  | ok a => exact ⟨a, rfl, h⟩

mutual

/-- What a term means is well-formed, if what the variables hold is. -/
theorem proper_meaning (hr : ∀ e ∈ r.values, e.2.Proper) (t : Term) {d : Datum}
    (h : t.meaning r = .ok d) : d.Proper := by
  have hleaf {d : Datum} (hkeyed : d.Keyed) (hparts : d.children = []) : d.Proper :=
    proper_of_parts hkeyed fun c hc => by
      rw [hparts] at hc
      cases hc
  match t with
  | unit | bool _ | char _ | int _ | float _ | text _ | bytes _ | absent | null =>
    rw [meaning] at h
    cases h
    exact hleaf trivial rfl
  | list ts =>
    rw [meaning] at h
    obtain ⟨ds, hds, h⟩ := exists_of_bind h
    cases h
    exact proper_of_parts trivial (proper_meaningItems hr ts hds)
  | tuple ts =>
    rw [meaning] at h
    obtain ⟨ds, hds, h⟩ := exists_of_bind h
    cases h
    exact proper_of_parts trivial (proper_meaningItems hr ts hds)
  | record name fs =>
    rw [meaning] at h
    obtain ⟨gs, hgs, h⟩ := exists_of_bind h
    cases h
    obtain ⟨hdistinct, hgs⟩ := proper_meaningFields hr fs Entries.distinct_nil nofun hgs
    exact proper_record name hdistinct hgs
  | dict es =>
    rw [meaning] at h
    obtain ⟨fs, hfs, h⟩ := exists_of_bind h
    cases h
    obtain ⟨hdistinct, hfs⟩ := proper_meaningEntries hr es Entries.distinct_nil nofun hfs
    exact proper_dict hdistinct hfs
  | present t =>
    rw [meaning] at h
    obtain ⟨c, hc, h⟩ := exists_of_bind h
    cases h
    refine proper_of_parts trivial fun d hd => ?_
    obtain rfl := List.mem_singleton.mp hd
    exact proper_meaning hr t hc
  | handle name =>
    rw [meaning] at h
    obtain ⟨p, -, h⟩ := exists_of_bind h
    cases h
    exact hleaf trivial rfl
  | var name =>
    rw [meaning, Registers.variableNamed] at h
    rcases hname : r.values.lookup name with - | c
    · rw [hname] at h
      cases h
    · rw [hname] at h
      cases h
      obtain ⟨e, he, -, rfl⟩ := Entries.exists_mem_of_lookup hname
      exact hr e he

/-- So are the items of a list. -/
theorem proper_meaningItems (hr : ∀ e ∈ r.values, e.2.Proper) (ts : List Term) {ds : List Datum}
    (h : meaningItems r ts = .ok ds) : ∀ d ∈ ds, d.Proper := by
  match ts with
  | [] =>
    rw [meaningItems] at h
    cases h
    exact nofun
  | t :: ts =>
    rw [meaningItems] at h
    obtain ⟨c, hc, h⟩ := exists_of_bind h
    obtain ⟨cs, hcs, h⟩ := exists_of_bind h
    cases h
    exact List.forall_mem_cons.mpr ⟨proper_meaning hr t hc, proper_meaningItems hr ts hcs⟩

/-- Fields that are added have different names. -/
theorem proper_meaningFields (hr : ∀ e ∈ r.values, e.2.Proper) (fs : List (String × Term))
    {got gs : List (String × Datum)} (hdistinct : Entries.Distinct got)
    (hgot : ∀ e ∈ got, e.2.Proper) (h : meaningFields r got fs = .ok gs) :
    Entries.Distinct gs ∧ ∀ e ∈ gs, e.2.Proper := by
  match fs with
  | [] =>
    rw [meaningFields] at h
    cases h
    exact ⟨hdistinct, hgot⟩
  | (name, t) :: fs =>
    rw [meaningFields] at h
    obtain ⟨c, hc, h⟩ := exists_of_bind h
    exact proper_meaningFields hr fs (hdistinct.put name c)
      (fun e he => (Entries.eq_or_mem_of_mem_put he).elim (· ▸ proper_meaning hr t hc) (hgot e)) h

/-- Entries that are inserted have different keys. -/
theorem proper_meaningEntries (hr : ∀ e ∈ r.values, e.2.Proper) (es : List (Term × Term))
    {got fs : List (Key × Datum)} (hdistinct : Entries.Distinct got)
    (hgot : ∀ e ∈ got, e.2.Proper) (h : meaningEntries r got es = .ok fs) :
    Entries.Distinct fs ∧ ∀ e ∈ fs, e.2.Proper := by
  match es with
  | [] =>
    rw [meaningEntries] at h
    cases h
    exact ⟨hdistinct, hgot⟩
  | (kt, t) :: es =>
    rw [meaningEntries] at h
    obtain ⟨kd, -, h⟩ := exists_of_bind h
    obtain ⟨c, hc, h⟩ := exists_of_bind h
    rcases hk : kd.key? with - | k
    · rw [hk] at h
      cases h
    · rw [hk] at h
      exact proper_meaningEntries hr es (hdistinct.put k c)
        (fun e he => (Entries.eq_or_mem_of_mem_put he).elim (· ▸ proper_meaning hr t hc) (hgot e)) h

end

end Term

namespace Datum

variable {a b c : Datum}

/-- Equality of values is symmetric and transitive, and a value is equal to itself exactly if no NaN
occurs in it. Values are equal only within one kind: sequences item by item, records by name and as
finite maps from field names, dictionaries as finite maps from keys, doubles as numbers, pointers by
the block they point to. -/
theorem same_partial_equivalence (ha : a.Proper) (hb : b.Proper) (hc : c.Proper) :
    (a.same b = true ↔ b.same a = true) ∧
    (a.same b = true → b.same c = true → a.same c = true) ∧
    (a.same a = true ↔ ¬ a.HasNaN) ∧
    (a.same b = true → a.kind = b.kind) ∧
    (a.same b = true ↔ Alike Equal a b) :=
  ⟨⟨fun h => Equal.symm h ha hb, fun h => Equal.symm h hb ha⟩,
    fun h h' => Equal.trans h h' ha hb hc, equal_self_iff ha,
    fun h => ((equal_iff ha.keyed hb.keyed).mp h).kind_eq, equal_iff ha.keyed hb.keyed⟩

/-- Two dictionaries that list their entries in different orders, with zeros of different signs. -/
theorem same_reordered :
    let a : Datum := .dict [(.int 1, .list [.float ⟨0⟩]), (.text "k", .absent)]
    let b : Datum := .dict [(.text "k", .absent), (.int 1, .list [.float ⟨0x8000000000000000⟩])]
    a.Proper ∧ b.Proper ∧ a.same b = true ∧
      (a.same b = true ↔ b.same a = true) ∧
      (a.same b = true → b.same a = true → a.same a = true) ∧
      (a.same a = true ↔ ¬ a.HasNaN) ∧
      (a.same b = true → a.kind = b.kind) ∧
      (a.same b = true ↔ Alike Equal a b) := by
  intro a b
  have ha : a.Proper := Term.proper_meaning (r := {}) nofun
    (.dict [(.int 1, .list [.float ⟨0⟩]), (.text "k", .absent)]) rfl
  have hb : b.Proper := Term.proper_meaning (r := {}) nofun
    (.dict [(.text "k", .absent), (.int 1, .list [.float ⟨0x8000000000000000⟩])]) rfl
  exact ⟨ha, hb, by decide +kernel, same_partial_equivalence ha hb ha⟩

end Datum
end CountedCells

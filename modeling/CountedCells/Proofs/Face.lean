import CountedCells.Session.Term

/-!
# Faces: what the values of a host express

The two hosts store different values, but what a value expresses can be said of both as a `Datum`,
its **face**: a watched number shows an integer, a value its datum. The face of a value that owns
a reference to a block is the pointer it is, and a value that owns nothing has nothing inside.

`Datum.children` are the immediate parts of a datum, the keys of a dictionary among them, and
`Datum.Holds p` says that a pointer is a datum or sits anywhere inside it.
-/

namespace CountedCells

namespace Datum

/-- The immediate parts. -/
def children : Datum → List Datum
  | list ds | tuple ds => ds
  | record _ fs => fs.map Prod.snd
  | dict es => es.flatMap fun (k, d) => [k.datum, d]
  | present d => [d]
  | _ => []

/-- The pointer is the datum, or sits anywhere inside it. -/
inductive Holds (p : Pointer) : Datum → Prop where
  /-- the datum is the pointer -/
  | here : Holds p (.pointer p)
  /-- a part holds it -/
  | inside {c d : Datum} (hc : c ∈ d.children) (h : Holds p c) : Holds p d

theorem sizeOf_key_datum (k : Key) : sizeOf k.datum = sizeOf k := by
  cases k <;> simp [Key.datum]

/-- Parts are smaller than the whole. -/
theorem sizeOf_lt_of_mem_children {c d : Datum} (h : c ∈ d.children) : sizeOf c < sizeOf d := by
  cases d with
  | list ds =>
    have : sizeOf c < sizeOf ds := List.sizeOf_lt_of_mem h
    simp only [list.sizeOf_spec]
    omega
  | tuple ds =>
    have : sizeOf c < sizeOf ds := List.sizeOf_lt_of_mem h
    simp only [tuple.sizeOf_spec]
    omega
  | record name fs =>
    obtain ⟨⟨field, e⟩, hf, rfl⟩ := List.mem_map.mp h
    have := List.sizeOf_lt_of_mem hf
    simp only [Prod.mk.sizeOf_spec, record.sizeOf_spec] at this ⊢
    omega
  | dict es =>
    obtain ⟨⟨k, e⟩, he, hc⟩ := List.mem_flatMap.mp h
    have := List.sizeOf_lt_of_mem he
    simp only [Prod.mk.sizeOf_spec, dict.sizeOf_spec] at this ⊢
    rcases List.mem_cons.mp hc with rfl | hc
    · rw [sizeOf_key_datum]
      omega
    · obtain rfl := List.mem_singleton.mp hc
      omega
  | present e =>
    obtain rfl := List.mem_singleton.mp h
    simp
  | _ => exact absurd h List.not_mem_nil

end Datum

/-- Hosts whose values express a datum. -/
class Faced (V : Type) [Host V] where
  /-- what a value expresses -/
  face : V → Datum
  /-- the values that own a reference to a block are the pointers to it -/
  ref_eq_block : ∀ {v : V} {b : BlockId} {n : Nat},
    Host.ref v = some (.block b n) ↔ face v = .pointer (.cells b n)
  /-- a value that owns nothing has no parts -/
  children_eq_nil : ∀ {v : V}, Host.ref v = none → (face v).children = []

export Faced (face)

section

variable {V : Type} [Host V] [Faced V]

/-- A pointer as a value has no parts. -/
theorem children_of_ref_block {v : V} {b : BlockId} {n : Nat}
    (h : Host.ref v = some (.block b n)) : (face v).children = [] := by
  rw [Faced.ref_eq_block.mp h]
  rfl

end

instance : Faced Value where
  face := Value.datum
  ref_eq_block {v b n} := by
    obtain ⟨d, p, hp⟩ := v
    cases d with
    | pointer q => cases q <;> simp [Host.ref, Value.ref, Pointer.ref]
    | _ => cases p <;> simp [Host.ref, Value.ref]
  children_eq_nil {v} h := by
    obtain ⟨d, p, hp⟩ := v
    cases d with
    | list | tuple | record | dict | present | absent | text | bytes =>
      obtain ⟨q, rfl⟩ := Option.isSome_iff_exists.mp hp
      cases h
    | _ => rfl

instance : Faced Tracked where
  face t := .int t.number
  ref_eq_block := by simp [Host.ref]
  children_eq_nil _ := rfl

end CountedCells

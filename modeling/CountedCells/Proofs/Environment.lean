import CountedCells.Session.Step
import Mathlib.Data.List.DropRight
import Mathlib.Data.Nat.Digits.Defs
import Mathlib.Tactic

/-!
# Environment: which contents give a limit

`Config.ofEnvironment` decodes the content, trims it and reads what remains, and each of these steps
can turn the content down. `Config.Spells` is the other way to say it: how a text is put together
that stands for a number. It has white space, at most one plus sign, decimal digits, and white space
again, and neither trims nor folds.

Digits and the sign are no white space, so trimming finds exactly the middle of such a text
(`Text.trim_of_split`); the digits are read from the left, and their number is the sum of the
digits times powers of ten (`Config.ofDigits_eq`). Only here does it matter that a limit is a 64-bit
count: a number that is spelled is read unless it is too large, however many zeros it starts with.
-/

namespace CountedCells

/-! ## White space -/

namespace Text

/-- The characters that Unicode calls white space. -/
def whiteSpace : List Char :=
  ['\t', '\n', '\u000b', '\u000c', '\r', ' ', '\u0085', '\u00a0', '\u1680', '\u2000', '\u2001',
   '\u2002', '\u2003', '\u2004', '\u2005', '\u2006', '\u2007', '\u2008', '\u2009', '\u200a',
   '\u2028', '\u2029', '\u202f', '\u205f', '\u3000']

theorem isBlank_iff {c : Char} : isBlank c = true ↔ c ∈ whiteSpace := by
  have hcodes : c ∈ whiteSpace ↔ c.toNat ∈ whiteSpace.map Char.toNat :=
    (List.mem_map_of_injective fun _ _ => Char.toNat_inj.mp).symm
  rw [hcodes, isBlank, Ranges.has_iff]
  simp only [blanks, whiteSpace, List.map_cons, List.map_nil, List.mem_cons, List.not_mem_nil,
    or_false, exists_eq_or_imp, exists_eq_left]
  simp only [Char.reduceToNat]
  omega

/-- What trimming takes off is white space. -/
theorem exists_trim_split (cs : List Char) :
    ∃ before after, cs = before ++ trim cs ++ after ∧
      (∀ c ∈ before, isBlank c = true) ∧ ∀ c ∈ after, isBlank c = true := by
  refine ⟨cs.takeWhile isBlank, (cs.dropWhile isBlank).rtakeWhile isBlank, ?_, ?_, ?_⟩
  · have hright : trim cs ++ (cs.dropWhile isBlank).rtakeWhile isBlank = cs.dropWhile isBlank :=
      List.rdropWhile_append_rtakeWhile ..
    rw [List.append_assoc, hright, List.takeWhile_append_dropWhile]
  · exact fun c hc => List.mem_takeWhile_imp hc
  · exact fun c hc => List.mem_rtakeWhile_imp hc

/-- Dropping stops before the first character that is not dropped. -/
theorem dropWhile_of_split {p : Char → Bool} {before core after : List Char}
    (hbefore : ∀ c ∈ before, p c = true) (hcore : ∀ c ∈ core, p c = false) (hne : core ≠ []) :
    (before ++ (core ++ after)).dropWhile p = core ++ after := by
  obtain ⟨c, cs, rfl⟩ := List.exists_cons_of_ne_nil hne
  have hc : ¬ p c = true := Bool.eq_false_iff.mp (hcore c List.mem_cons_self)
  rw [List.dropWhile_append_of_pos hbefore, List.cons_append, List.dropWhile_cons_of_neg hc]

/-- White space around something without white space is taken off. -/
theorem trim_of_split {before core after : List Char} (hbefore : ∀ c ∈ before, isBlank c = true)
    (hafter : ∀ c ∈ after, isBlank c = true) (hcore : ∀ c ∈ core, isBlank c = false)
    (hne : core ≠ []) : trim (before ++ core ++ after) = core := by
  have hright : (after.reverse ++ (core.reverse ++ [])).dropWhile isBlank = core.reverse ++ [] :=
    dropWhile_of_split (fun c hc => hafter c (List.mem_reverse.mp hc))
      (fun c hc => hcore c (List.mem_reverse.mp hc)) (List.reverse_ne_nil_iff.mpr hne)
  rw [List.append_nil] at hright
  rw [trim, List.append_assoc, dropWhile_of_split hbefore hcore hne, List.reverse_append, hright,
    List.reverse_reverse]

end Text

namespace Config

open Text

/-! ## Digits -/

/-- The value of a digit. -/
def digit (c : Char) : Nat := c.toNat - '0'.toNat

/-- The digits are read from the left, one factor of ten at a time; the last one counts ones. -/
theorem ofDigits_eq (ds : List Char) : ofDigits ds = Nat.ofDigits 10 (ds.reverse.map digit) := by
  induction ds using List.reverseRecOn with
  | nil => rfl
  | append_singleton ds d ih =>
    have hlast : ofDigits (ds ++ [d]) = 10 * ofDigits ds + digit d := by
      rw [ofDigits, List.foldl_append]
      rfl
    rw [hlast, ih, List.reverse_append, List.reverse_singleton, List.singleton_append,
      List.map_cons, Nat.ofDigits_cons, Nat.add_comm]

theorem isBlank_of_isDigit {c : Char} (hc : c.isDigit = true) : isBlank c = false := by
  have hcodes := Char.isDigit_iff_toNat.mp hc
  refine Bool.eq_false_iff.mpr fun hblank => ?_
  rw [isBlank, Ranges.has_iff] at hblank
  simp only [blanks, List.mem_cons, List.not_mem_nil, or_false, exists_eq_or_imp,
    exists_eq_left] at hblank
  simp only [Char.reduceToNat] at hcodes
  omega

/-! ## The grammar -/

/-- An optional plus sign and one or more digits of the number `n`. -/
def Numeral (cs : List Char) (n : Nat) : Prop :=
  ∃ sign ds : List Char, cs = sign ++ ds ∧ (sign = [] ∨ sign = ['+']) ∧ ds ≠ [] ∧
    (∀ d ∈ ds, d.isDigit = true) ∧ Nat.ofDigits 10 (ds.reverse.map digit) = n

/-- A numeral of the number `n` with white space around it. -/
def Spells (cs : List Char) (n : Nat) : Prop :=
  ∃ before numeral after : List Char, cs = before ++ numeral ++ after ∧
    (∀ c ∈ before ++ after, c ∈ whiteSpace) ∧ Numeral numeral n

variable {cs ds : List Char} {n : UInt64}

/-- The number of digits without a sign, if it is a 64-bit count. -/
def readDigits (ds : List Char) : Option UInt64 :=
  if ds ≠ [] ∧ ds.all Char.isDigit ∧ ofDigits ds < countRange then some (.ofNat (ofDigits ds))
  else none

theorem readCount_of_head (hcs : cs.head? ≠ some '+') : readCount cs = readDigits cs := by
  rw [readCount]
  · rfl
  · rintro rest rfl
    exact hcs rfl

theorem readDigits_eq_some_iff :
    readDigits ds = some n ↔
      ds ≠ [] ∧ (∀ d ∈ ds, d.isDigit = true) ∧
        Nat.ofDigits 10 (ds.reverse.map digit) = n.toNat := by
  rw [readDigits, ← ofDigits_eq, ← List.all_eq_true]
  constructor
  · intro h
    split at h
    · rename_i hds
      cases h
      exact ⟨hds.1, hds.2.1, (UInt64.toNat_ofNat_of_lt' hds.2.2).symm⟩
    · cases h
  · rintro ⟨hne, hdigits, hvalue⟩
    rw [if_pos ⟨hne, hdigits, hvalue ▸ n.toNat_lt⟩, hvalue, UInt64.ofNat_toNat]

/-- What is read is a numeral, and every numeral of a 64-bit count is read. -/
theorem readCount_eq_some_iff : readCount cs = some n ↔ Numeral cs n.toNat := by
  constructor
  · intro h
    by_cases hcs : cs.head? = some '+'
    · obtain ⟨ds, rfl⟩ := List.head?_eq_some_iff.mp hcs
      exact ⟨['+'], ds, rfl, .inr rfl, readDigits_eq_some_iff.mp h⟩
    · rw [readCount_of_head hcs] at h
      exact ⟨[], cs, rfl, .inl rfl, readDigits_eq_some_iff.mp h⟩
  · rintro ⟨sign, ds, rfl, rfl | rfl, hds⟩
    · have hhead : ds.head? ≠ some '+' := fun h => by
        have hplus := hds.2.1 '+' (List.mem_of_head? h)
        exact absurd hplus (by decide)
      rw [List.nil_append, readCount_of_head hhead, readDigits_eq_some_iff]
      exact hds
    · exact readDigits_eq_some_iff.mpr hds

/-- The decimal digits of a number are a numeral. -/
theorem numeral_repr (n : Nat) : Numeral n.repr.toList n := by
  refine ⟨[], n.repr.toList, rfl, .inl rfl, ?_, ?_, ?_⟩
  · rw [Nat.toList_repr]
    exact Nat.toDigits_ne_nil
  · intro d hd
    rw [Nat.toList_repr] at hd
    exact Nat.isDigit_of_mem_toDigits (by decide) (by decide) hd
  · rw [← ofDigits_eq, Nat.toList_repr]
    exact Nat.ofDigitChars_ten_toDigits

theorem Numeral.ne_nil {n : Nat} (h : Numeral cs n) : cs ≠ [] := by
  obtain ⟨sign, ds, rfl, -, hne, -⟩ := h
  exact List.append_ne_nil_of_right_ne_nil sign hne

theorem Numeral.isBlank_eq_false {n : Nat} (h : Numeral cs n) {c : Char} (hc : c ∈ cs) :
    isBlank c = false := by
  obtain ⟨sign, ds, rfl, hsign, -, hdigits, -⟩ := h
  rcases List.mem_append.mp hc with hc | hc
  · rcases hsign with rfl | rfl
    · cases hc
    · obtain rfl := List.mem_singleton.mp hc
      decide
  · exact isBlank_of_isDigit (hdigits c hc)

/-- A text spells a number exactly if it is a numeral after trimming. -/
theorem spells_iff {n : Nat} : Spells cs n ↔ Numeral (trim cs) n := by
  constructor
  · rintro ⟨before, numeral, after, rfl, hblank, hnumeral⟩
    have hspace {c : Char} (hc : c ∈ before ++ after) : isBlank c = true :=
      isBlank_iff.mpr (hblank c hc)
    rwa [trim_of_split (fun c hc => hspace (List.mem_append_left _ hc))
      (fun c hc => hspace (List.mem_append_right _ hc)) (fun c hc => hnumeral.isBlank_eq_false hc)
      hnumeral.ne_nil]
  · intro h
    obtain ⟨before, after, hcs, hbefore, hafter⟩ := exists_trim_split cs
    refine ⟨before, trim cs, after, hcs, fun c hc => isBlank_iff.mp ?_, h⟩
    exact (List.mem_append.mp hc).elim (hbefore c) (hafter c)

/-! ## The environment -/

/-- Bytes are decoded exactly if they are the encoding of a text. -/
theorem fromUTF8?_eq_some_iff {bytes : ByteArray} {text : String} :
    String.fromUTF8? bytes = some text ↔ bytes = text.toUTF8 := by
  rw [String.fromUTF8?]
  constructor
  · intro h
    split at h
    · cases h
      rfl
    · cases h
  · rintro rfl
    exact dif_pos text.isValidUTF8

theorem ofEnvironment_eq_some_iff {content : Option ByteArray} :
    ofEnvironment content = ⟨some n⟩ ↔
      ∃ text : String, content = some text.toUTF8 ∧ Spells text.toList n.toNat := by
  rw [ofEnvironment, Config.mk.injEq, Option.bind_eq_bind, Option.bind_eq_some_iff]
  constructor
  · rintro ⟨bytes, rfl, h⟩
    obtain ⟨text, htext, hread⟩ := Option.bind_eq_some_iff.mp h
    exact ⟨text, congrArg some (fromUTF8?_eq_some_iff.mp htext),
      spells_iff.mpr (readCount_eq_some_iff.mp hread)⟩
  · rintro ⟨text, rfl, h⟩
    refine ⟨text.toUTF8, rfl, Option.bind_eq_some_iff.mpr ⟨text, ?_, ?_⟩⟩
    · exact fromUTF8?_eq_some_iff.mpr rfl
    · exact readCount_eq_some_iff.mpr (spells_iff.mp h)

/-- There is no limit exactly if whatever number the content spells is too large. -/
theorem ofEnvironment_eq_none_iff {content : Option ByteArray} :
    ofEnvironment content = ⟨none⟩ ↔
      ∀ (text : String) (n : Nat), content = some text.toUTF8 → Spells text.toList n →
        2 ^ 64 ≤ n := by
  constructor
  · intro h text n hcontent hspells
    by_contra hsmall
    have hn : (UInt64.ofNat n).toNat = n := UInt64.toNat_ofNat_of_lt' (Nat.lt_of_not_le hsmall)
    have hlimit : ofEnvironment content = ⟨some (.ofNat n)⟩ :=
      ofEnvironment_eq_some_iff.mpr ⟨text, hcontent, hn.symm ▸ hspells⟩
    cases h.symm.trans hlimit
  · intro h
    rcases hlimit : ofEnvironment content with ⟨- | n⟩
    · rfl
    · obtain ⟨text, hcontent, hspells⟩ := ofEnvironment_eq_some_iff.mp hlimit
      exact absurd (h text _ hcontent hspells) (Nat.not_le_of_lt n.toNat_lt)

/-- The limit is read from the content by one grammar: a content gives the limit `n` exactly if it
is the encoding of a text that spells `n`, and no limit exactly if it spells no 64-bit count.
Decimal digits of a count with white space around them give the count; and once it is installed,
requests are admitted exactly as by this limit. -/
theorem environment_limit :
    (∀ (content : Option ByteArray) (n : UInt64), ofEnvironment content = ⟨some n⟩ ↔
      ∃ text : String, content = some text.toUTF8 ∧ Spells text.toList n.toNat) ∧
    (∀ content : Option ByteArray, ofEnvironment content = ⟨none⟩ ↔
      ∀ (text : String) (n : Nat), content = some text.toUTF8 → Spells text.toList n →
        2 ^ 64 ≤ n) ∧
    (∀ (n : UInt64) (before after : List Char), (∀ c ∈ before ++ after, c ∈ whiteSpace) →
      ofEnvironment (some (String.ofList (before ++ n.toNat.repr.toList ++ after)).toUTF8) =
        ⟨some n⟩) ∧
    ∀ {V E : Type} [Host V] [Expression E V] (s : Session V) (content : Option ByteArray)
      (requested : Nat),
      let h := (s.step (.configure (ofEnvironment content) : Command E)).2.heap
      h = { s.heap with config := ofEnvironment content } ∧
        (h.config.admits h.stats.liveCells requested = true ↔
          ∀ n : UInt64, ofEnvironment content = ⟨some n⟩ →
            s.heap.stats.liveCells + requested ≤ n.toNat) := by
  refine ⟨fun _ _ => ofEnvironment_eq_some_iff, fun _ => ofEnvironment_eq_none_iff, ?_, ?_⟩
  · intro n before after hblank
    refine ofEnvironment_eq_some_iff.mpr ⟨_, rfl, before, _, after, ?_, hblank, numeral_repr _⟩
    exact String.toList_ofList
  · intro V E _ _ s content requested
    refine ⟨rfl, ?_⟩
    show (ofEnvironment content).admits s.heap.stats.liveCells requested = true ↔ _
    rcases ofEnvironment content with ⟨- | limit⟩
    · exact iff_of_true rfl nofun
    · rw [admits_iff]
      exact ⟨fun h n hn => by cases hn; exact h, fun h => h limit rfl⟩

/-- Zeros in front and white space around the largest limit do not matter. The next number gives no
limit, and neither do digits with white space between them, a lone sign, bytes that encode no text,
or no content at all. -/
theorem padded_limit_is_read :
    let padded := String.ofList (['\t'] ++ (42 : UInt64).toNat.repr.toList ++ ['\u3000'])
    ofEnvironment (some padded.toUTF8) = ⟨some 42⟩ ∧
      ofEnvironment (some " +0018446744073709551615\n".toUTF8) = ⟨some 18446744073709551615⟩ ∧
      ofEnvironment (some "18446744073709551616".toUTF8) = ⟨none⟩ ∧
      ofEnvironment (some "4 2".toUTF8) = ⟨none⟩ ∧ ofEnvironment (some "+".toUTF8) = ⟨none⟩ ∧
      ofEnvironment (some ⟨#[0x34, 0xff]⟩) = ⟨none⟩ ∧ ofEnvironment none = ⟨none⟩ := by
  refine ⟨environment_limit.2.2.1 42 ['\t'] ['\u3000'] (by simp [whiteSpace]),
    (environment_limit.1 _ _).mpr ⟨_, rfl, ?_⟩, by decide +kernel, by decide +kernel,
    by decide +kernel, by decide +kernel, (environment_limit.2.1 none).mpr nofun⟩
  have hdigits : ∀ d ∈ "0018446744073709551615".toList, d.isDigit = true :=
    List.all_eq_true.mp (by decide +kernel)
  have hnumeral : Numeral "+0018446744073709551615".toList 18446744073709551615 :=
    ⟨['+'], "0018446744073709551615".toList, rfl, .inr rfl, by decide +kernel, hdigits,
      by decide +kernel⟩
  exact ⟨[' '], _, ['\n'], rfl, by simp [whiteSpace], hnumeral⟩

end Config

end CountedCells

import CountedCells.Text.Blank
import CountedCells.Text.Layout

/-!
# Config: the limit on live cells

The only setting is how many cells may be live at once; without it there is no limit. An
allocation is admitted if the live cells and the new ones together stay within the limit **and
within the range of a 64-bit count**, so a sum that does not fit is refused by every limit.

The limit can be given as the content of an environment variable: blanks around it do not matter,
and what remains is an optional plus sign and decimal digits for a number below `2^64`. Any other
content, one that is not UTF-8 included, gives no limit.
-/

namespace CountedCells

/-- The settings of a heap. -/
structure Config where
  /-- how many cells may be live, if there is a limit -/
  cellLimit : Option UInt64 := none
  deriving DecidableEq, Inhabited, Repr

namespace Config

/-- The number of values of a 64-bit count. -/
def countRange : Nat := UInt64.size

/-- The sum of two counts, if it is a 64-bit count again. -/
def checkedSum (a b : Nat) : Option Nat := if a + b < countRange then some (a + b) else none

/-- Whether `requested` more cells fit next to `live` ones. -/
def admits (config : Config) (live requested : Nat) : Bool :=
  match config.cellLimit with
  | none => true
  | some limit => (checkedSum live requested).any (· ≤ limit.toNat)

/-- The sum has room in a 64-bit count whenever it stays within a limit. -/
theorem admits_iff {limit : UInt64} {live requested : Nat} :
    (Config.mk (some limit)).admits live requested = true ↔ live + requested ≤ limit.toNat := by
  have := limit.toNat_lt
  unfold admits checkedSum countRange UInt64.size
  split <;> simp_all
  split <;> simp_all
  omega

/-! ## The limit as a text -/

/-- The number that decimal digits stand for. -/
def ofDigits (ds : List Char) : Nat := ds.foldl (fun n d => 10 * n + (d.toNat - '0'.toNat)) 0

/-- The number written as an optional plus sign and one or more ASCII digits, if it is a 64-bit
count. -/
def readCount (cs : List Char) : Option UInt64 :=
  let ds := match cs with
    | '+' :: rest => rest
    | _ => cs
  if ds ≠ [] ∧ ds.all Char.isDigit ∧ ofDigits ds < countRange then some (.ofNat (ofDigits ds))
  else none

/-- The settings from the content of the environment variable, if it is set. -/
def ofEnvironment (content : Option ByteArray) : Config where
  cellLimit := do
    let bytes ← content
    let text ← String.fromUTF8? bytes
    readCount (Text.trim text.toList)

/-- The layout of the settings. -/
def layout (config : Config) : Text.Layout :=
  .fields "HeapConfig"
    [("unit_limit", .ofOption (config.cellLimit.map fun n => .leaf (toString n.toNat)))]

end Config
end CountedCells

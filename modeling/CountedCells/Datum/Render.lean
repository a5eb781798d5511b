import CountedCells.Datum.Basic
import CountedCells.Number.Decimal
import CountedCells.Text.Quoted
import CountedCells.Text.Layout

/-!
# The text of a value

A value is shown on one line: numbers and truth values plainly, a character between single quotes
as it is, texts quoted, sequences in brackets, a record under its type name, a dictionary in
braces, a pointer by its identity.

The entries of a dictionary have no order of their own. A value with a dictionary of two or more
entries anywhere inside therefore has no determined text (`hasFixedText`); where one is needed all
the same, as in a message, the entries are written as they are held.
-/

namespace CountedCells

open CountedCells.Text (quote Layout)

/-! ## The simple kinds -/

/-- The text of a truth value. -/
def renderBool (b : Bool) : String := if b then "true" else "false"

/-- The text of a character: itself between single quotes. -/
def renderChar (c : Char) : String := "\x27" ++ String.singleton c ++ "\x27"

/-- The text of a byte string: its bytes in decimal. -/
def renderBytes (bs : List UInt8) : String :=
  "b[" ++ Layout.commaSeparated (bs.map fun b => toString b.toNat) ++ "]"

/-- The text of a key, which is its text as a value. -/
def Key.render : Key → String
  | unit => "()"
  | bool b => renderBool b
  | char c => renderChar c
  | int n => toString n.toInt
  | text s => quote s
  | bytes bs => renderBytes bs
  | pointer p => p.render

namespace Datum

/-! ## All kinds -/

mutual

/-- The text of a value. A tuple of one item has a comma after it. -/
def render : Datum → String
  | unit => "()"
  | bool b => renderBool b
  | char c => renderChar c
  | int n => toString n.toInt
  | float x => x.render
  | text s => quote s
  | bytes bs => renderBytes bs
  | list ds => "[" ++ Layout.commaSeparated (renderItems ds) ++ "]"
  | tuple ds =>
    "(" ++ Layout.commaSeparated (renderItems ds) ++ (if ds.length = 1 then "," else "") ++ ")"
  | record name fs => name ++ " \x7b " ++ Layout.commaSeparated (renderFields fs) ++ " \x7d"
  | dict es => "\x7b" ++ Layout.commaSeparated (renderEntries es) ++ "\x7d"
  | absent => "None"
  | present d => "Some(" ++ d.render ++ ")"
  | pointer p => p.render

/-- The texts of the items of a sequence. -/
def renderItems : List Datum → List String
  | [] => []
  | d :: ds => d.render :: renderItems ds

/-- The texts of the fields of a record. -/
def renderFields : List (String × Datum) → List String
  | [] => []
  | (name, d) :: fs => (name ++ ": " ++ d.render) :: renderFields fs

/-- The texts of the entries of a dictionary. -/
def renderEntries : List (Key × Datum) → List String
  | [] => []
  | (k, d) :: es => (k.render ++ ": " ++ d.render) :: renderEntries es

end

/-! ## Whether the text is determined -/

mutual

/-- Whether no dictionary inside the value has two entries or more. -/
def hasFixedText : Datum → Bool
  | list ds | tuple ds => fixedItems ds
  | record _ fs => fixedFields fs
  | dict es => es.length ≤ 1 && fixedEntries es
  | present d => d.hasFixedText
  | _ => true

/-- Whether all items of a sequence have a determined text. -/
def fixedItems : List Datum → Bool
  | [] => true
  | d :: ds => d.hasFixedText && fixedItems ds

/-- Whether all fields of a record have a determined text. -/
def fixedFields : List (String × Datum) → Bool
  | [] => true
  | (_, d) :: fs => d.hasFixedText && fixedFields fs

/-- Whether all entries of a dictionary have a determined text. -/
def fixedEntries : List (Key × Datum) → Bool
  | [] => true
  | (_, d) :: es => d.hasFixedText && fixedEntries es

end

/-- The text of a value as a layout. It is a leaf: a value looks the same on one line and on
several. -/
def layout (d : Datum) : Layout := .leaf d.render

end Datum

/-- The layout of a key, under the name of the wrapper that makes a value a key. -/
def Key.layout (k : Key) : Layout := .variant "HashableValue" [.leaf k.render]

end CountedCells

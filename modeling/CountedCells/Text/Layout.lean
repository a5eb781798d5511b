/-!
# Layout: structured text on one line or on several

What is shown of a structured thing is a tree of named parts. It has two texts:

* **inline**, on one line: `Name { a: 1 }`, `Name(1, 2)`, `[1, 2]`;
* **block**, one part to a line, each with a comma after it and indented by four spaces per level.

A leaf is a finished text and looks the same in both. Should it contain line breaks, the block
text indents every line of it.
-/

namespace CountedCells.Text

/-- A structured text. -/
inductive Layout where
  /-- a finished text -/
  | leaf (text : String)
  /-- a name with named parts -/
  | fields (name : String) (parts : List (String × Layout))
  /-- a name with parts in parentheses -/
  | variant (name : String) (parts : List Layout)
  /-- items in square brackets -/
  | items (parts : List Layout)
  /-- keys with their values in braces -/
  | entries (parts : List (String × Layout))
  deriving Inhabited

namespace Layout

/-- Texts with a comma between each two. -/
def commaSeparated (texts : List String) : String := ", ".intercalate texts

/-- Four spaces in front of every line; no line is started after a final line break. -/
def indent (s : String) : String :=
  let step (acc : List Char × Bool) (c : Char) : List Char × Bool :=
    ((if acc.2 then c :: "    ".toList ++ acc.1 else c :: acc.1), c == '\n')
  String.ofList (s.toList.foldl step ([], true)).1.reverse

/-- Texts one to a line between two brackets, or the brackets alone. -/
def bracketed (opening closing : String) (texts : List String) : String :=
  if texts.isEmpty then opening ++ closing
  else opening ++ "\n" ++ String.join (texts.map fun t => indent (t ++ ",\n")) ++ closing

/-! ## On one line -/

mutual

/-- The text on one line. -/
def inline : Layout → String
  | leaf text => text
  | fields name [] => name
  | fields name parts => name ++ " \x7b " ++ commaSeparated (inlineNamed parts) ++ " \x7d"
  | variant name [] => name
  | variant name parts => name ++ "(" ++ commaSeparated (inlineAll parts) ++ ")"
  | items parts => "[" ++ commaSeparated (inlineAll parts) ++ "]"
  | entries parts => "\x7b" ++ commaSeparated (inlineNamed parts) ++ "\x7d"

/-- The texts of parts on one line. -/
def inlineAll : List Layout → List String
  | [] => []
  | part :: parts => part.inline :: inlineAll parts

/-- The texts of named parts on one line. -/
def inlineNamed : List (String × Layout) → List String
  | [] => []
  | (name, part) :: parts => (name ++ ": " ++ part.inline) :: inlineNamed parts

end

/-! ## On several lines -/

mutual

/-- The text with one part to a line. -/
def block : Layout → String
  | leaf text => text
  | fields name [] => name
  | fields name parts => bracketed (name ++ " \x7b") "\x7d" (blockNamed parts)
  | variant name [] => name
  | variant name parts => bracketed (name ++ "(") ")" (blockAll parts)
  | items parts => bracketed "[" "]" (blockAll parts)
  | entries parts => bracketed "\x7b" "\x7d" (blockNamed parts)

/-- The texts of parts, one to a line. -/
def blockAll : List Layout → List String
  | [] => []
  | part :: parts => part.block :: blockAll parts

/-- The texts of named parts, one to a line. -/
def blockNamed : List (String × Layout) → List String
  | [] => []
  | (name, part) :: parts => (name ++ ": " ++ part.block) :: blockNamed parts

end

/-- The layout of something that may be absent. -/
def ofOption : Option Layout → Layout
  | none => leaf "None"
  | some part => variant "Some" [part]

end Layout
end CountedCells.Text

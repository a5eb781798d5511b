import CountedCells.Text.Unprintable
import CountedCells.Text.Extending

/-!
# Quoted: a text between double quotes

A quoted text shows every character of the text unambiguously. The quote and the backslash take a
backslash in front; the null character, tabulator, line feed and carriage return have a short
form; a character that shows nothing or attaches to the one before is written as its code point
in lower-case hexadecimal digits. All others stand for themselves, a single quote included.
-/

namespace CountedCells.Text

/-- The lower-case hexadecimal digits of a number, without leading zeros. -/
def hex (n : Nat) : String := String.ofList (Nat.toDigits 16 n)

/-- The text that stands for one character between double quotes. -/
def quoteChar (c : Char) : String :=
  match c with
  | '\x00' => "\\0"
  | '\t' => "\\t"
  | '\n' => "\\n"
  | '\r' => "\\r"
  | '"' => "\\\""
  | '\\' => "\\\\"
  | c =>
    if isPrintable c && !isExtending c then String.singleton c
    else "\\u\x7b" ++ hex c.toNat ++ "\x7d"

/-- A text between double quotes. -/
def quote (s : String) : String :=
  "\"" ++ String.join (s.toList.map quoteChar) ++ "\""

end CountedCells.Text

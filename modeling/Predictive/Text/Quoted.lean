import Predictive.Text.Printing

/-! # Quoted text

    A quoted text stands between double quotes. Inside it the double quote and
    the backslash carry a backslash, a few controls have a letter, and any
    other character that does not print is given by its code point.
-/

namespace Predictive.Text.Quoted

/-- How a character is written inside the quotes. -/
def escape (c : Char) : List Char :=
  if c = '"' then ['\\', '"']
  else if c = '\\' then ['\\', '\\']
  else if c = '\x00' then ['\\', '0']
  else if c = '\t' then ['\\', 't']
  else if c = '\r' then ['\\', 'r']
  else if c = '\n' then ['\\', 'n']
  else if isPrinting c then [c]
  else ['\\', 'u', '\x7b'] ++ Nat.toDigits 16 c.toNat ++ ['\x7d']

/-- The text between double quotes. -/
def quote (s : String) : String :=
  String.ofList ('"' :: s.toList.flatMap escape ++ ['"'])

/-- A list of quoted texts in square brackets. -/
def list (texts : List String) : String :=
  "[" ++ ", ".intercalate (texts.map quote) ++ "]"

example : quote "say \"a\\b\"" = "\"say \\\"a\\\\b\\\"\"" := by decide
example : list ["a -> 'b'", "c\u0301"] = "[\"a -> 'b'\", \"c\\u\x7b301\x7d\"]" := by decide

end Predictive.Text.Quoted

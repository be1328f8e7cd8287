/-! # Compact JSON

    A value and its text: no blanks, members in the order given, and in a
    string only the double quote, the backslash and the characters below
    U+0020 escaped.
-/

namespace Predictive

/-- A JSON value whose numbers are natural numbers. -/
inductive Json where
  | null
  | bool (value : Bool)
  | num (value : Nat)
  | str (value : String)
  | arr (items : List Json)
  | obj (members : List (String × Json))
  deriving Repr

namespace Json

/-- How a character is written inside a string: five controls have a letter,
    the other characters below U+0020 are given by four hexadecimal digits. -/
def escape (c : Char) : List Char :=
  if c = '"' then ['\\', '"']
  else if c = '\\' then ['\\', '\\']
  else if c = '\x08' then ['\\', 'b']
  else if c = '\t' then ['\\', 't']
  else if c = '\n' then ['\\', 'n']
  else if c = '\x0c' then ['\\', 'f']
  else if c = '\r' then ['\\', 'r']
  else if c.toNat < 0x20 then
    ['\\', 'u', '0', '0', Nat.digitChar (c.toNat / 16), Nat.digitChar (c.toNat % 16)]
  else [c]

/-- A string between double quotes. -/
def quote (s : String) : List Char :=
  '"' :: s.toList.flatMap escape ++ ['"']

mutual

/-- The characters of a value. -/
def chars : Json → List Char
  | null => ['n', 'u', 'l', 'l']
  | bool true => ['t', 'r', 'u', 'e']
  | bool false => ['f', 'a', 'l', 's', 'e']
  | num n => Nat.toDigits 10 n
  | str s => quote s
  | arr items => '[' :: itemChars items ++ [']']
  | obj members => '\x7b' :: memberChars members ++ ['\x7d']

/-- The items of an array with commas between them. -/
def itemChars : List Json → List Char
  | [] => []
  | [item] => chars item
  | item :: items => chars item ++ ',' :: itemChars items

/-- The members of an object with commas between them. -/
def memberChars : List (String × Json) → List Char
  | [] => []
  | [(key, value)] => quote key ++ ':' :: chars value
  | (key, value) :: members => quote key ++ ':' :: chars value ++ ',' :: memberChars members

end

/-- The text of a value. -/
def compact (value : Json) : String := String.ofList value.chars

/-- An array of strings. -/
def strs (texts : List String) : Json := arr (texts.map str)

/-- A string, or null where there is none. -/
def ofOption (text : Option String) : Json := (text.map str).getD null

example : compact (obj [("a", arr [num 10, null]), ("b", str "\"\x01/")])
    = "\x7b\"a\":[10,null],\"b\":\"\\\"\\u0001/\"\x7d" := by decide

end Json

end Predictive

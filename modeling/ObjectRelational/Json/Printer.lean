import ObjectRelational.Json.Basic
import ObjectRelational.Number.Layout

/-!
# JSON text

The compact text of a JSON value, without any blanks, and the indented text with one item a line.
Both keep the order of the members.
-/

namespace ObjectRelational.Json

/-- Numbers are written in place from `0.00001` up to below `10^16`; a whole number keeps `.0`, and
exponents are signed either way. -/
def numberLayout : FloatLayout where
  leastInPlace := -5
  firstTooLarge := 16
  wholeMark := ".0"
  exponentMark := "e"
  signsExponent := true

/-- The hexadecimal digit of a number below sixteen. -/
def hexDigit (n : Nat) : Char := if n < 10 then Char.ofNat (48 + n) else Char.ofNat (87 + n)

/-- A character inside a string: quotes, backslashes and control characters are escaped. -/
def escapeChar (c : Char) : List Char :=
  if c = '"' then ['\\', '"']
  else if c = '\\' then ['\\', '\\']
  else if c = '\n' then ['\\', 'n']
  else if c = '\r' then ['\\', 'r']
  else if c = '\t' then ['\\', 't']
  else if c = '\x08' then ['\\', 'b']
  else if c = '\x0c' then ['\\', 'f']
  else if c.toNat < 32 then ['\\', 'u', '0', '0', hexDigit (c.toNat / 16), hexDigit (c.toNat % 16)]
  else [c]

/-- A string in quotes. -/
def quoted (s : String) : List Char :=
  '"' :: (s.toList.flatMap escapeChar ++ ['"'])

mutual

/-- The characters of the compact text. -/
def chars : Json → List Char
  | null => ['n', 'u', 'l', 'l']
  | bool true => ['t', 'r', 'u', 'e']
  | bool false => ['f', 'a', 'l', 's', 'e']
  | int value => (toString value).toList
  | float value => (numberLayout.text value).toList
  | str value => quoted value
  | arr items => '[' :: itemChars items
  | obj members => '\x7b' :: memberChars members

/-- The items of an array up to its closing bracket. -/
def itemChars : List Json → List Char
  | [] => [']']
  | [item] => chars item ++ [']']
  | item :: rest => chars item ++ ',' :: itemChars rest

/-- The members of an object up to its closing brace. -/
def memberChars : List (String × Json) → List Char
  | [] => ['\x7d']
  | [(key, value)] => quoted key ++ ':' :: (chars value ++ ['\x7d'])
  | (key, value) :: rest => quoted key ++ ':' :: (chars value ++ ',' :: memberChars rest)

end

/-- The compact text. -/
def text (json : Json) : String := String.ofList (chars json)

/-- A new line and two spaces for each level. -/
def newLine (level : Nat) : List Char := '\n' :: List.replicate (2 * level) ' '

mutual

/-- The characters of the indented text of a value that stands at a level. -/
def indentedChars (level : Nat) : Json → List Char
  | arr [] => ['[', ']']
  | arr (item :: rest) =>
    '[' :: (newLine (level + 1) ++ indentedChars (level + 1) item ++ indentedItems level rest)
  | obj [] => ['\x7b', '\x7d']
  | obj ((key, value) :: rest) =>
    '\x7b' :: (newLine (level + 1) ++ quoted key ++ [':', ' '] ++
      indentedChars (level + 1) value ++ indentedMembers level rest)
  | json => chars json

/-- The items behind the first one. -/
def indentedItems (level : Nat) : List Json → List Char
  | [] => newLine level ++ [']']
  | item :: rest =>
    ',' :: (newLine (level + 1) ++ indentedChars (level + 1) item ++ indentedItems level rest)

/-- The members behind the first one. -/
def indentedMembers (level : Nat) : List (String × Json) → List Char
  | [] => newLine level ++ ['\x7d']
  | (key, value) :: rest =>
    ',' :: (newLine (level + 1) ++ quoted key ++ [':', ' '] ++
      indentedChars (level + 1) value ++ indentedMembers level rest)

end

/-- The text with one item or member a line, indented by two spaces for each level. -/
def indentedText (json : Json) : String := String.ofList (indentedChars 0 json)

end ObjectRelational.Json

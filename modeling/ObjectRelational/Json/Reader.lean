import ObjectRelational.Json.Basic
import ObjectRelational.Number.Literal
import ObjectRelational.OrderedMap

/-!
# Reading JSON text

A text is cut into tokens, and the tokens are read with a stack of the arrays and objects that are
still open. The members of an object are sorted by key; of members with one key the last counts.

* `Token.scan?` is the lexer.
* `Reading.step?` takes one token, `Json.ofText?` all of them.
-/

namespace ObjectRelational

/-- A token of a JSON text. -/
inductive Token where
  | openArray
  | closeArray
  | openObject
  | closeObject
  | comma
  | colon
  | str (value : String)
  | scalar (value : Json)

namespace Token

/-- The value of a hexadecimal digit of either case. -/
def hexValue? (c : Char) : Option Nat :=
  if '0' ≤ c ∧ c ≤ '9' then some (c.toNat - 48)
  else if 'a' ≤ c ∧ c ≤ 'f' then some (c.toNat - 87)
  else if 'A' ≤ c ∧ c ≤ 'F' then some (c.toNat - 55)
  else none

/-- The number that four hexadecimal digits write. -/
def hexQuad? (a b c d : Char) : Option Nat := do
  let a ← hexValue? a
  let b ← hexValue? b
  let c ← hexValue? c
  let d ← hexValue? d
  return ((a * 16 + b) * 16 + c) * 16 + d

/-- The first half of a surrogate pair. -/
def isHighSurrogate (unit : Nat) : Bool := 0xD800 ≤ unit && unit < 0xDC00

/-- The second half of a surrogate pair. -/
def isLowSurrogate (unit : Nat) : Bool := 0xDC00 ≤ unit && unit < 0xE000

/-- The character that a letter behind a backslash stands for. -/
def simpleEscape? : Char → Option Char
  | '"' => some '"'
  | '\\' => some '\\'
  | '/' => some '/'
  | 'b' => some '\x08'
  | 'f' => some '\x0c'
  | 'n' => some '\n'
  | 'r' => some '\r'
  | 't' => some '\t'
  | _ => none

/-- Reads a string behind its opening quote: the string, whose characters so far are `read` in
reverse, and the rest of the text. -/
def scanString? (read : List Char) : List Char → Option (String × List Char)
  | [] => none
  | '"' :: rest => some (String.ofList read.reverse, rest)
  | '\\' :: 'u' :: a :: b :: c :: d :: '\\' :: 'u' :: e :: f :: g :: h :: rest =>
    match hexQuad? a b c d with
    | none => none
    | some unit =>
      if isHighSurrogate unit then
        match hexQuad? e f g h with
        | none => none
        | some low =>
          if isLowSurrogate low then
            scanString?
              (Char.ofNat (0x10000 + (unit - 0xD800) * 0x400 + (low - 0xDC00)) :: read) rest
          else none
      else if isLowSurrogate unit then none
      else scanString? (Char.ofNat unit :: read) ('\\' :: 'u' :: e :: f :: g :: h :: rest)
  | '\\' :: 'u' :: a :: b :: c :: d :: rest =>
    match hexQuad? a b c d with
    | none => none
    | some unit =>
      if isHighSurrogate unit || isLowSurrogate unit then none
      else scanString? (Char.ofNat unit :: read) rest
  | '\\' :: c :: rest => (simpleEscape? c).bind fun c => scanString? (c :: read) rest
  | c :: rest => if c.toNat < 32 then none else scanString? (c :: read) rest

/-- The digits at the front of a text, and the rest of it. -/
def scanDigits (text : List Char) : List Nat × List Char :=
  ((text.takeWhile Char.isDigit).map fun c => c.toNat - 48, text.dropWhile Char.isDigit)

/-- Reads the fraction of a number, if there is one; a point needs a digit behind it. -/
def scanFraction? : List Char → Option (List Nat × List Char)
  | '.' :: rest =>
    match scanDigits rest with
    | ([], _) => none
    | (digits, rest) => some (digits, rest)
  | rest => some ([], rest)

/-- Reads the exponent of a number, if there is one; it may have a sign and needs a digit. -/
def scanExponent? (text : List Char) : Option (Option Int × List Char) :=
  match text with
  | c :: rest =>
    if c = 'e' ∨ c = 'E' then
      let (negative, rest) := match rest with
        | '+' :: rest => (false, rest)
        | '-' :: rest => (true, rest)
        | rest => (false, rest)
      match scanDigits rest with
      | ([], _) => none
      | (digits, rest) =>
        let value : Nat := digits.foldl (fun n d => n * 10 + d) 0
        some (some (if negative then -(value : Int) else (value : Int)), rest)
    else some (none, text)
  | [] => some (none, [])

/-- Reads a number. Its whole part is zero or starts with another digit. -/
def scanNumber? (text : List Char) : Option (Json × List Char) := do
  let (negative, text) := match text with
    | '-' :: rest => (true, rest)
    | rest => (false, rest)
  let (whole, text) ← match scanDigits text with
    | ([], _) => none
    | (0 :: _ :: _, _) => none
    | found => some found
  let (fraction, text) ← scanFraction? text
  let (exponent, text) ← scanExponent? text
  let literal : DecimalLiteral := ⟨negative, whole, fraction, exponent⟩
  match literal.integer? with
  | some value => return (.int value, text)
  | none => return (.float (← literal.float?), text)

/-- Reads one of the three names. -/
def scanName? : List Char → Option (Json × List Char)
  | 'n' :: 'u' :: 'l' :: 'l' :: rest => some (.null, rest)
  | 't' :: 'r' :: 'u' :: 'e' :: rest => some (.bool true, rest)
  | 'f' :: 'a' :: 'l' :: 's' :: 'e' :: rest => some (.bool false, rest)
  | _ => none

/-- The blanks between tokens. -/
def isSpace (c : Char) : Bool := c = ' ' || c = '\t' || c = '\n' || c = '\r'

/-- Cuts a text into tokens. Every token and every blank takes a character, so the length of the
text is enough fuel. -/
def scan? : (fuel : Nat) → List Char → Option (List Token)
  | _, [] => some []
  | 0, _ => none
  | fuel + 1, c :: rest =>
    if isSpace c then scan? fuel rest
    else match c with
      | '[' => (scan? fuel rest).map (openArray :: ·)
      | ']' => (scan? fuel rest).map (closeArray :: ·)
      | '\x7b' => (scan? fuel rest).map (openObject :: ·)
      | '\x7d' => (scan? fuel rest).map (closeObject :: ·)
      | ',' => (scan? fuel rest).map (comma :: ·)
      | ':' => (scan? fuel rest).map (colon :: ·)
      | '"' => do
        let (value, rest) ← scanString? [] rest
        return str value :: (← scan? fuel rest)
      | _ => do
        let (value, rest) ←
          if c = '-' ∨ c.isDigit then scanNumber? (c :: rest) else scanName? (c :: rest)
        return scalar value :: (← scan? fuel rest)

end Token

/-- An array or object whose end has not been read; the items read so far are in reverse. -/
inductive OpenValue where
  | array (items : List Json)
  | object (members : List (String × Json)) (key : String)

/-- What may come next. -/
inductive Expected where
  | value
  | itemOrClose
  | memberOrClose
  | key (members : List (String × Json))
  | colon
  | separator
  | nothing (result : Json)

/-- The state of a reader between two tokens. -/
structure Reading where
  /-- What is still open, innermost first. -/
  stack : List OpenValue
  /-- What may come next. -/
  expected : Expected

namespace Reading

/-- The deepest nesting that is read. -/
def maxDepth : Nat := 127

/-- The object with the given members, the last one first: sorted, and of members with one key the
last one written. -/
def objectOf (members : List (String × Json)) : Json :=
  .obj (OrderedMap.ofList members.reverse).entries

/-- Goes on behind a complete value. -/
def complete (stack : List OpenValue) (value : Json) : Reading :=
  match stack with
  | [] => ⟨[], .nothing value⟩
  | .array items :: rest => ⟨.array (value :: items) :: rest, .separator⟩
  | .object members key :: rest => ⟨.object ((key, value) :: members) key :: rest, .separator⟩

/-- Reads the first token of a value. -/
def startValue? (stack : List OpenValue) : Token → Option Reading
  | .scalar value => some (complete stack value)
  | .str value => some (complete stack (.str value))
  | .openArray =>
    if stack.length < maxDepth then some ⟨.array [] :: stack, .itemOrClose⟩ else none
  | .openObject =>
    if stack.length < maxDepth then some ⟨.object [] "" :: stack, .memberOrClose⟩ else none
  | _ => none

/-- Reads one token. -/
def step? (reading : Reading) (token : Token) : Option Reading :=
  match reading.expected, reading.stack, token with
  | .value, stack, token => startValue? stack token
  | .itemOrClose, .array _ :: rest, .closeArray => some (complete rest (.arr []))
  | .itemOrClose, stack, token => startValue? stack token
  | .memberOrClose, .object _ _ :: rest, .closeObject => some (complete rest (.obj []))
  | .memberOrClose, .object members _ :: rest, .str key =>
    some ⟨.object members key :: rest, .colon⟩
  | .key members, _ :: rest, .str key => some ⟨.object members key :: rest, .colon⟩
  | .colon, stack, .colon => some ⟨stack, .value⟩
  | .separator, .array items :: rest, .comma => some ⟨.array items :: rest, .value⟩
  | .separator, .array items :: rest, .closeArray => some (complete rest (.arr items.reverse))
  | .separator, .object members key :: rest, .comma =>
    some ⟨.object members key :: rest, .key members⟩
  | .separator, .object members _ :: rest, .closeObject => some (complete rest (objectOf members))
  | _, _, _ => none

end Reading

/-- The value that a text writes, if it writes one. -/
def Json.ofText? (text : String) : Option Json := do
  let tokens ← Token.scan? text.length text.toList
  match ← tokens.foldlM Reading.step? ⟨[], .value⟩ with
  | ⟨[], .nothing result⟩ => some result
  | _ => none

end ObjectRelational

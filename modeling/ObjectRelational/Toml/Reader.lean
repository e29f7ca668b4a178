import ObjectRelational.Toml.Basic

/-!
# Reading configuration documents

A document is read line by line. A line is empty, or opens a table, or holds one entry; a comment
can stand at its end. Keys are bare, and values are strings in either kind of quotes, integers and
booleans.

* `Line.ofChars?` reads a line, `Toml.Document.ofText?` a document.
-/

namespace ObjectRelational.Toml

/-! ## Characters -/

/-- The blanks inside a line. -/
def isBlankChar (c : Char) : Bool := c = ' ' || c = '\t'

/-- The characters of a key. -/
def isKeyChar (c : Char) : Bool := c.isAlphanum || c = '_' || c = '-'

/-- The characters that may stand in comments and strings: all but control characters other than
the tab. -/
def isTextChar (c : Char) : Bool := c = '\t' || (32 ≤ c.toNat && c.toNat ≠ 127)

/-- Drops the blanks at the front. -/
def skipBlanks (cs : List Char) : List Char := cs.dropWhile isBlankChar

/-- The rest of a line behind its content: blanks and perhaps a comment. -/
def endsLine (cs : List Char) : Bool :=
  match skipBlanks cs with
  | [] => true
  | '#' :: comment => comment.all isTextChar
  | _ => false

/-! ## Numbers -/

/-- The value of a digit of either case. -/
def digitValue? (c : Char) : Option Nat :=
  if '0' ≤ c ∧ c ≤ '9' then some (c.toNat - 48)
  else if 'a' ≤ c ∧ c ≤ 'z' then some (c.toNat - 87)
  else if 'A' ≤ c ∧ c ≤ 'Z' then some (c.toNat - 55)
  else none

/-- Reads the digits of a number to a base. Single underscores may stand between digits;
`afterDigit` says that the character before was a digit. -/
def number? (base : Nat) (value : Nat) (afterDigit : Bool) : List Char → Option Nat
  | [] => if afterDigit then some value else none
  | '_' :: rest => if afterDigit then number? base value false rest else none
  | c :: rest =>
    match digitValue? c with
    | none => none
    | some digit =>
      if digit < base then number? base (value * base + digit) true rest else none

/-- A decimal number has no zero in front. -/
def decimal? : List Char → Option Nat
  | ['0'] => some 0
  | '0' :: _ => none
  | cs => number? 10 0 false cs

/-- Reads an integer: a signed decimal number, or an unsigned one to another base. -/
def integer? : List Char → Option Int
  | '0' :: 'x' :: digits => (number? 16 0 false digits).map Int.ofNat
  | '0' :: 'o' :: digits => (number? 8 0 false digits).map Int.ofNat
  | '0' :: 'b' :: digits => (number? 2 0 false digits).map Int.ofNat
  | '+' :: digits => (decimal? digits).map Int.ofNat
  | '-' :: digits => (decimal? digits).map fun n => -Int.ofNat n
  | digits => (decimal? digits).map Int.ofNat

/-- Integers are limited to 128 bits. -/
def bounded? (value : Int) : Option Int :=
  if -(Nat.pow 2 127) ≤ value ∧ value < Nat.pow 2 128 then some value else none

/-! ## Strings -/

/-- The character that a letter behind a backslash stands for. -/
def simpleEscape? : Char → Option Char
  | 'b' => some '\x08'
  | 't' => some '\t'
  | 'n' => some '\n'
  | 'f' => some '\x0c'
  | 'r' => some '\r'
  | 'e' => some '\x1b'
  | '"' => some '"'
  | '\\' => some '\\'
  | _ => none

/-- The character of a code point that hexadecimal digits write. -/
def codePoint? (digits : List Char) : Option Char := do
  let value ← digits.foldlM (fun n c => do
    let digit ← digitValue? c
    if digit < 16 then some (n * 16 + digit) else none) 0
  if value.isValidChar then some (Char.ofNat value) else none

/-- Puts a character before what was read behind it. -/
def withChar (c : Option Char) (rest : Option (List Char × List Char)) :
    Option (List Char × List Char) := do
  let c ← c
  let (text, after) ← rest
  return (c :: text, after)

/-- Reads a string in double quotes behind the opening one: its text, and what follows it. -/
def doubleQuoted? : List Char → Option (List Char × List Char)
  | [] => none
  | '"' :: rest => some ([], rest)
  | '\\' :: 'x' :: a :: b :: rest => withChar (codePoint? [a, b]) (doubleQuoted? rest)
  | '\\' :: 'u' :: a :: b :: c :: d :: rest =>
    withChar (codePoint? [a, b, c, d]) (doubleQuoted? rest)
  | '\\' :: 'U' :: a :: b :: c :: d :: e :: f :: g :: h :: rest =>
    withChar (codePoint? [a, b, c, d, e, f, g, h]) (doubleQuoted? rest)
  | '\\' :: c :: rest => withChar (simpleEscape? c) (doubleQuoted? rest)
  | c :: rest => if isTextChar c then withChar (some c) (doubleQuoted? rest) else none

/-- Reads a string in single quotes behind the opening one; nothing is escaped in it. -/
def singleQuoted? : List Char → Option (List Char × List Char)
  | [] => none
  | '\'' :: rest => some ([], rest)
  | c :: rest => if isTextChar c then withChar (some c) (singleQuoted? rest) else none

/-! ## Values and lines -/

/-- The value that a word stands for. -/
def word? (cs : List Char) : Option Value :=
  if cs = ['t', 'r', 'u', 'e'] then some (.boolean true)
  else if cs = ['f', 'a', 'l', 's', 'e'] then some (.boolean false)
  else ((integer? cs).bind bounded?).map .integer

/-- Reads a value, which has to be all that is left of its line. -/
def value? : List Char → Option Value
  | '"' :: rest => do
    let (text, after) ← doubleQuoted? rest
    if endsLine after then some (.string (String.ofList text)) else none
  | '\'' :: rest => do
    let (text, after) ← singleQuoted? rest
    if endsLine after then some (.string (String.ofList text)) else none
  | cs =>
    let isWordChar := fun c => !isBlankChar c && c ≠ '#'
    if endsLine (cs.dropWhile isWordChar) then word? (cs.takeWhile isWordChar) else none

/-- A key, and what follows it behind blanks. -/
def key? (cs : List Char) : Option (String × List Char) :=
  match cs.takeWhile isKeyChar with
  | [] => none
  | key => some (String.ofList key, skipBlanks (cs.dropWhile isKeyChar))

/-- A line of a document. -/
inductive Line where
  | empty
  | header (name : String)
  | entry (key : String) (value : Value)

/-- Reads what follows the bracket that opens the name of a table. -/
def Line.header? (cs : List Char) : Option Line := do
  let (name, rest) ← key? (skipBlanks cs)
  match rest with
  | ']' :: after => if endsLine after then some (.header name) else none
  | _ => none

/-- Reads an entry. -/
def Line.entry? (cs : List Char) : Option Line := do
  let (key, rest) ← key? cs
  match rest with
  | '=' :: after => (value? (skipBlanks after)).map (.entry key)
  | _ => none

/-- Reads a line. -/
def Line.ofChars? (cs : List Char) : Option Line :=
  if endsLine cs then some .empty
  else
    match skipBlanks cs with
    | '[' :: rest => Line.header? rest
    | rest => Line.entry? rest

/-! ## Documents -/

/-- The lines of a text. A line ends with a line feed, before which a carriage return may stand. -/
def lines : List Char → List (List Char)
  | [] => [[]]
  | '\n' :: rest => [] :: lines rest
  | '\r' :: '\n' :: rest => [] :: lines rest
  | c :: rest =>
    match lines rest with
    | [] => [[c]]
    | first :: others => (c :: first) :: others

/-- Adds an entry at the end of a table. -/
def Document.addEntry? (d : Document) (current : Option String) (key : String) (value : Value) :
    Option Document :=
  match current with
  | none => if d.isTaken key then none else some { d with entries := d.entries ++ [(key, value)] }
  | some name =>
    if (((d.table? name).getD []).lookup key).isSome then none
    else
      some { d with
        tables := d.tables.map fun t => if t.1 = name then (t.1, t.2 ++ [(key, value)]) else t }

/-- Adds lines to a document; `current` is the table that is open. -/
def Document.addLines? (d : Document) (current : Option String) :
    List (List Char) → Option Document
  | [] => some d
  | cs :: rest =>
    match Line.ofChars? cs with
    | none => none
    | some .empty => d.addLines? current rest
    | some (.header name) =>
      if d.isTaken name then none
      else Document.addLines? { d with tables := d.tables ++ [(name, [])] } (some name) rest
    | some (.entry key value) =>
      match d.addEntry? current key value with
      | none => none
      | some d => d.addLines? current rest

/-- Reads a document. A byte order mark in front is not part of it. -/
def Document.ofText? (text : String) : Option Document :=
  let cs := match text.toList with
    | '\ufeff' :: rest => rest
    | cs => cs
  Document.addLines? {} none (lines cs)

end ObjectRelational.Toml

import SchemaLex.Text.CharClass
import SchemaLex.Toml.Basic

/-! # Strings and keys in TOML -/

namespace SchemaLex.Toml

def isBlank (c : Char) : Bool := c == ' ' || c == '\t'

def skipBlanks (cs : List Char) : List Char := cs.dropWhile isBlank

/-- Characters that may stand for themselves on a line: all but the control characters other than
the tab. -/
def isLineChar (c : Char) : Bool := c == '\t' || (0x20 ≤ c.toNat && c.toNat != 0x7f)

/-- The text after a line break. -/
def afterBreak? : List Char → Option (List Char)
  | '\n' :: rest => some rest
  | '\r' :: '\n' :: rest => some rest
  | _ => none

/-- The character with a number, if there is one. -/
def charOf? (digits : List Char) : Option Char :=
  let code := ofDigits 16 digits
  if digits.all isHexDigit && (code < 0xd800 || (0xe000 ≤ code && code < 0x110000)) then
    some (Char.ofNat code)
  else none

/-- The character that a one-letter escape names. -/
def escapeOf? (c : Char) : Option Char :=
  if c = 'b' then some '\x08'
  else if c = 't' then some '\t'
  else if c = 'n' then some '\n'
  else if c = 'f' then some '\x0c'
  else if c = 'r' then some '\r'
  else if c = '\x22' then some '\x22'
  else if c = '\\' then some '\\'
  else none

/-- Adds a character, if there is one, to a text that has been read. -/
def prepend? (c : Option Char) (result : Option (List Char × List Char)) :
    Option (List Char × List Char) := do
  let c ← c
  let (text, rest) ← result
  some (c :: text, rest)

/-- A string on one line with escapes, from after its opening quote. -/
def readBasic? : List Char → Option (List Char × List Char)
  | [] => none
  | '\x22' :: rest => some ([], rest)
  | '\\' :: 'u' :: a :: b :: c :: d :: rest => prepend? (charOf? [a, b, c, d]) (readBasic? rest)
  | '\\' :: 'U' :: a :: b :: c :: d :: e :: f :: g :: h :: rest =>
    prepend? (charOf? [a, b, c, d, e, f, g, h]) (readBasic? rest)
  | '\\' :: e :: rest => prepend? (escapeOf? e) (readBasic? rest)
  | c :: rest => if isLineChar c && c != '\\' then prepend? c (readBasic? rest) else none

/-- A string on one line without escapes, from after its opening quote. -/
def readLiteral? (cs : List Char) : Option (List Char × List Char) :=
  match cs.dropWhile (fun c => isLineChar c && c != '\x27') with
  | '\x27' :: rest => some (cs.takeWhile (fun c => isLineChar c && c != '\x27'), rest)
  | _ => none

/-- Whether only blanks stand before the next line break. -/
def endsLine (cs : List Char) : Bool := (afterBreak? (skipBlanks cs)).isSome

/-- A string over several lines with escapes, from after its opening quotes. One or two quotes
stand for themselves, also right before the closing ones. A backslash at the end of a line takes
the blanks and line breaks after it away; while it does, `trimming` is set. -/
def readLongBasic? (trimming : Bool) : List Char → Option (List Char × List Char)
  | [] => none
  | '\x22' :: '\x22' :: '\x22' :: '\x22' :: '\x22' :: rest => some (['\x22', '\x22'], rest)
  | '\x22' :: '\x22' :: '\x22' :: '\x22' :: rest => some (['\x22'], rest)
  | '\x22' :: '\x22' :: '\x22' :: rest => some ([], rest)
  | '\\' :: 'u' :: a :: b :: c :: d :: rest =>
    prepend? (charOf? [a, b, c, d]) (readLongBasic? false rest)
  | '\\' :: 'U' :: a :: b :: c :: d :: e :: f :: g :: h :: rest =>
    prepend? (charOf? [a, b, c, d, e, f, g, h]) (readLongBasic? false rest)
  | '\\' :: e :: rest =>
    if endsLine (e :: rest) then
      if isBlank e || e == '\n' || e == '\r' then readLongBasic? true rest else none
    else prepend? (escapeOf? e) (readLongBasic? false rest)
  | '\r' :: '\n' :: rest =>
    if trimming then readLongBasic? true rest else prepend? '\n' (readLongBasic? false rest)
  | c :: rest =>
    if trimming && (isBlank c || c == '\n') then readLongBasic? true rest
    else if (isLineChar c || c == '\n') && c != '\\' then prepend? c (readLongBasic? false rest)
    else none

/-- A string over several lines without escapes, from after its opening quotes. -/
def readLongLiteral? : List Char → Option (List Char × List Char)
  | [] => none
  | '\x27' :: '\x27' :: '\x27' :: '\x27' :: '\x27' :: rest => some (['\x27', '\x27'], rest)
  | '\x27' :: '\x27' :: '\x27' :: '\x27' :: rest => some (['\x27'], rest)
  | '\x27' :: '\x27' :: '\x27' :: rest => some ([], rest)
  | '\r' :: '\n' :: rest => prepend? '\n' (readLongLiteral? rest)
  | c :: rest => if isLineChar c || c == '\n' then prepend? c (readLongLiteral? rest) else none

/-- The text after a line break that directly follows the opening quotes. -/
def skipBreak (cs : List Char) : List Char := (afterBreak? cs).getD cs

/-- A string in any of its four forms. -/
def readString? : List Char → Option (List Char × List Char)
  | '\x22' :: '\x22' :: '\x22' :: rest => readLongBasic? false (skipBreak rest)
  | '\x22' :: rest => readBasic? rest
  | '\x27' :: '\x27' :: '\x27' :: rest => readLongLiteral? (skipBreak rest)
  | '\x27' :: rest => readLiteral? rest
  | _ => none

def isBareKeyChar (c : Char) : Bool := c.isAlphanum || c == '_' || c == '-'

/-- One part of a key: bare, or a string on one line. -/
def readKeyPart? : List Char → Option (List Char × List Char)
  | '\x22' :: rest => readBasic? rest
  | '\x27' :: rest => readLiteral? rest
  | cs =>
    match cs.takeWhile isBareKeyChar with
    | [] => none
    | part => some (part, cs.dropWhile isBareKeyChar)

/-- A dotted key: the parts before the last one, and the last one. Blanks may stand around the
points. -/
def readKey? : Nat → List Char → Option ((List String × String) × List Char)
  | 0, _ => none
  | fuel + 1, cs => do
    let (part, rest) ← readKeyPart? (skipBlanks cs)
    match skipBlanks rest with
    | '.' :: rest =>
      let ((path, key), rest) ← readKey? fuel rest
      some ((String.ofList part :: path, key), rest)
    | rest => some (([], String.ofList part), rest)

end SchemaLex.Toml

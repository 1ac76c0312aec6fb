import SchemaLex.Toml.Scalar
import SchemaLex.Toml.Text

/-! # Reading TOML documents

Version 1.0 of the format. Every reader takes the characters still to be read and returns those
it leaves. -/

namespace SchemaLex.Toml

/-- Passes over blanks, line breaks and comments. -/
def skipTrivia? (inComment : Bool) : List Char → Option (List Char)
  | [] => some []
  | '\n' :: rest => skipTrivia? false rest
  | '\r' :: '\n' :: rest => skipTrivia? false rest
  | c :: rest =>
    if inComment then if isLineChar c then skipTrivia? true rest else none
    else if isBlank c then skipTrivia? false rest
    else if c = '#' then skipTrivia? true rest
    else some (c :: rest)

/-- The rest of a line after a pair or a header: blanks, perhaps a comment, and a line break
unless the text ends. -/
def readLineEnd? (cs : List Char) : Option (List Char) :=
  let rest := match skipBlanks cs with
    | '#' :: comment => comment.dropWhile isLineChar
    | rest => rest
  if rest.isEmpty then some [] else afterBreak? rest

mutual

/-- One value. The fuel bounds the steps and is never short when it is the number of
characters. -/
def readItem? : Nat → List Char → Option (Toml × List Char)
  | 0, _ => none
  | fuel + 1, cs =>
    match cs with
    | '\x22' :: _ | '\x27' :: _ =>
      (readString? cs).map fun (text, rest) => (.string (String.ofList text), rest)
    | '[' :: rest =>
      (readElements? fuel rest).map fun (items, rest) => (.array items, rest)
    | '\x7b' :: rest => do
      let (pairs, rest) ← match skipBlanks rest with
        | '\x7d' :: rest => some ([], rest)
        | rest => readInlinePairs? fuel rest
      let entries ← Entries.assignAll? pairs []
      some (.table .inline entries, rest)
    | _ => readScalar? cs

/-- The elements of an array up to the closing bracket; a comma may follow the last one. -/
def readElements? : Nat → List Char → Option (List Toml × List Char)
  | 0, _ => none
  | fuel + 1, cs => do
    match ← skipTrivia? false cs with
    | ']' :: rest => some ([], rest)
    | cs =>
      let (item, rest) ← readItem? fuel cs
      match ← skipTrivia? false rest with
      | ',' :: rest =>
        let (items, rest) ← readElements? fuel rest
        some (item :: items, rest)
      | ']' :: rest => some ([item], rest)
      | _ => none

/-- The pairs of an inline table from the first one to the closing brace. -/
def readInlinePairs? : Nat → List Char → Option (List Pair × List Char)
  | 0, _ => none
  | fuel + 1, cs => do
    let (pair, rest) ← readPair? fuel cs
    match skipBlanks rest with
    | ',' :: rest =>
      let (pairs, rest) ← readInlinePairs? fuel rest
      some (pair :: pairs, rest)
    | '\x7d' :: rest => some ([pair], rest)
    | _ => none

/-- A key, an equals sign and a value. -/
def readPair? : Nat → List Char → Option (Pair × List Char)
  | 0, _ => none
  | fuel + 1, cs => do
    let ((path, key), rest) ← readKey? (cs.length + 1) cs
    match rest with
    | '=' :: rest =>
      let (item, rest) ← readItem? fuel (skipBlanks rest)
      some (⟨path, key, item⟩, rest)
    | _ => none

end

/-- The pairs up to the next header or the end, and the text from there. -/
def readPairs? (size : Nat) : Nat → List Char → Option (List Pair × List Char)
  | 0, _ => none
  | fuel + 1, cs => do
    match ← skipTrivia? false cs with
    | [] => some ([], [])
    | '[' :: rest => some ([], '[' :: rest)
    | cs =>
      let (pair, rest) ← readPair? size cs
      let rest ← readLineEnd? rest
      let (pairs, rest) ← readPairs? size fuel rest
      some (pair :: pairs, rest)

/-- A header, after its first bracket: whether it opens an element of an array of tables, and its
key. -/
def readHeader? (cs : List Char) : Option ((Bool × List String × String) × List Char) := do
  match cs with
  | '[' :: cs =>
    let ((path, key), rest) ← readKey? (cs.length + 1) cs
    match rest with
    | ']' :: ']' :: rest => some ((true, path, key), ← readLineEnd? rest)
    | _ => none
  | cs =>
    let ((path, key), rest) ← readKey? (cs.length + 1) cs
    match rest with
    | ']' :: rest => some ((false, path, key), ← readLineEnd? rest)
    | _ => none

def readSections? (size : Nat) : Nat → List Char → Option (List Section)
  | 0, _ => none
  | fuel + 1, cs =>
    match cs with
    | '[' :: rest => do
      let ((element, path, key), rest) ← readHeader? rest
      let (pairs, rest) ← readPairs? size size rest
      let sections ← readSections? size fuel rest
      some (⟨element, path, key, pairs⟩ :: sections)
    | [] => some []
    | _ => none

/-- The text without a byte order mark at its front. -/
def skipMark : List Char → List Char
  | '\ufeff' :: rest => rest
  | cs => cs

def readDocument? (cs : List Char) : Option Document := do
  let size := 2 * cs.length + 2
  let (pairs, rest) ← readPairs? size size cs
  let sections ← readSections? size size rest
  some ⟨pairs, sections⟩

/-- The root table that a text writes. -/
def parse? (text : String) : Option Entries :=
  (readDocument? (skipMark text.toList)).bind Document.root?

end SchemaLex.Toml

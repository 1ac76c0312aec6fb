/-! # Character classes of schema sources

All classes are subsets of ASCII, so that no letter, digit or space outside ASCII ever continues
a word or separates two tokens. -/

namespace SchemaLex

/-- Characters that may open a word. -/
def isLetter (c : Char) : Bool := c.isAlpha

def isDigit (c : Char) : Bool := c.isDigit

/-- Characters that may continue a word. -/
def isWordChar (c : Char) : Bool := c.isAlphanum || c == '_'

/-- Characters that separate tokens and belong to none. -/
def isSeparator (c : Char) : Bool := c == ' ' || c == '\t' || c == '\r' || c == '\n'

def isComparison (c : Char) : Bool := c == '>' || c == '<' || c == '='

def isArithmetic (c : Char) : Bool :=
  c == '+' || c == '-' || c == '*' || c == '/' || c == '%' ||
  c == '&' || c == '|' || c == '^' || c == '~' || c == '='

def isHexDigit (c : Char) : Bool :=
  c.isDigit || ('a' ≤ c && c ≤ 'f') || ('A' ≤ c && c ≤ 'F')

/-- The characters of a decimal number: digits and points. -/
def isDecimalChar (c : Char) : Bool := isDigit c || c == '.'

theorem isWordChar_of_isLetter {c : Char} (h : isLetter c = true) :
    isWordChar c = true := by
  simp only [isLetter] at h
  simp [isWordChar, Char.isAlphanum, h]

theorem isDecimalChar_of_isDigit {c : Char} (h : isDigit c = true) :
    isDecimalChar c = true := by
  simp [isDecimalChar, h]

/-- The value of a digit in base sixteen; other characters have the value zero. -/
def digitValue (c : Char) : Nat :=
  if c.isDigit then c.toNat - '0'.toNat
  else if 'a' ≤ c ∧ c ≤ 'f' then c.toNat - 'a'.toNat + 10
  else if 'A' ≤ c ∧ c ≤ 'F' then c.toNat - 'A'.toNat + 10
  else 0

/-- The number written by a run of digits in a base. -/
def ofDigits (base : Nat) (digits : List Char) : Nat :=
  digits.foldl (fun acc c => acc * base + digitValue c) 0

end SchemaLex

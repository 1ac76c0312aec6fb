import SchemaLex.Text.CharClass
import SchemaLex.Toml.Basic

/-! # Numbers, truth values and times in TOML -/

namespace SchemaLex.Toml

/-- Splits a text at the first character that meets a condition; that character is in neither
part. -/
def splitAt? (p : Char → Bool) (cs : List Char) : Option (List Char × List Char) :=
  match cs.dropWhile (fun c => !p c) with
  | [] => none
  | _ :: rest => some (cs.takeWhile (fun c => !p c), rest)

/-- The digits of a run in which single underscores may stand between digits. -/
def plainDigits? (p : Char → Bool) : List Char → Option (List Char)
  | [] => none
  | [c] => if p c then some [c] else none
  | c :: '_' :: rest => if p c then (plainDigits? p rest).map (c :: ·) else none
  | c :: rest => if p c then (plainDigits? p rest).map (c :: ·) else none

/-- Decimal digits without a needless zero at the front. -/
def decimalDigits? (cs : List Char) : Option (List Char) :=
  match plainDigits? isDigit cs with
  | some ('0' :: _ :: _) => none
  | result => result

/-- Takes the sign off a text; the flag says that it is negative. -/
def unsign : List Char → Bool × List Char
  | '-' :: rest => (true, rest)
  | '+' :: rest => (false, rest)
  | cs => (false, cs)

def isOctalDigit (c : Char) : Bool := '0' ≤ c && c ≤ '7'

def isBinaryDigit (c : Char) : Bool := c == '0' || c == '1'

/-- The integer of a sign and a magnitude that fits in sixty-four bits. -/
def ofMagnitude? (negative : Bool) (magnitude : Nat) : Option Toml :=
  if negative then
    if magnitude ≤ Nat.pow 2 63 then some (.integer (Int64.ofInt (-magnitude))) else none
  else if magnitude < Nat.pow 2 63 then some (.integer (Int64.ofNat magnitude)) else none

def inBase? (base : Nat) (p : Char → Bool) (cs : List Char) : Option Toml :=
  (plainDigits? p cs).bind fun digits => ofMagnitude? false (ofDigits base digits)

def integer? : List Char → Option Toml
  | '0' :: 'x' :: rest => inBase? 16 isHexDigit rest
  | '0' :: 'o' :: rest => inBase? 8 isOctalDigit rest
  | '0' :: 'b' :: rest => inBase? 2 isBinaryDigit rest
  | cs =>
    let (negative, rest) := unsign cs
    (decimalDigits? rest).bind fun digits => ofMagnitude? negative (ofDigits 10 digits)

/-- The exponent written after its mark; without one it is zero. -/
def exponent? : Option (List Char) → Option Int
  | none => some 0
  | some cs =>
    let (negative, rest) := unsign cs
    (plainDigits? isDigit rest).map fun digits =>
      if negative then -(ofDigits 10 digits : Int) else ofDigits 10 digits

/-- The digits after the point; without a point there are none. -/
def fraction? : Option (List Char) → Option (List Char)
  | none => some []
  | some cs => plainDigits? isDigit cs

/-- A float has a fraction or an exponent. One that exceeds all finite numbers is refused. -/
def finiteFloat? (cs : List Char) : Option Toml := do
  let (negative, rest) := unsign cs
  let (mantissa, power) := match splitAt? (fun c => c == 'e' || c == 'E') rest with
    | some (mantissa, power) => (mantissa, some power)
    | none => (rest, none)
  let (whole, places) := match splitAt? (· == '.') mantissa with
    | some (whole, places) => (whole, some places)
    | none => (mantissa, none)
  if power.isNone ∧ places.isNone then none
  else
    let whole ← decimalDigits? whole
    let fraction ← fraction? places
    let power ← exponent? power
    let x := Binary64.ofDecimal negative (ofDigits 10 (whole ++ fraction)) (power - fraction.length)
    if x = .infinity false then none else some (.float x)

def float? (cs : List Char) : Option Toml :=
  let (negative, rest) := unsign cs
  if rest = "inf".toList then some (.float (.infinity negative))
  else if rest = "nan".toList then some (.float .nan)
  else finiteFloat? cs

/-- Whether digits are given in number and their value lies between two bounds. -/
def isField (width low high : Nat) (cs : List Char) : Bool :=
  cs.length == width && cs.all isDigit && low ≤ ofDigits 10 cs && ofDigits 10 cs ≤ high

def daysInMonth (year month : Nat) : Nat :=
  if month = 2 then
    if year % 4 = 0 ∧ (year % 100 ≠ 0 ∨ year % 400 = 0) then 29 else 28
  else if month = 4 ∨ month = 6 ∨ month = 9 ∨ month = 11 then 30
  else 31

/-- A date with four, two and two digits. -/
def isDate (cs : List Char) : Bool :=
  match cs with
  | [y1, y2, y3, y4, '-', m1, m2, '-', d1, d2] =>
    isField 4 0 9999 [y1, y2, y3, y4] && isField 2 1 12 [m1, m2] &&
      isField 2 1 (daysInMonth (ofDigits 10 [y1, y2, y3, y4]) (ofDigits 10 [m1, m2])) [d1, d2]
  | _ => false

def isHourMinute (cs : List Char) : Bool :=
  match cs with
  | [h1, h2, ':', m1, m2] => isField 2 0 23 [h1, h2] && isField 2 0 59 [m1, m2]
  | _ => false

/-- A time of day with seconds, and a fraction of at least one digit if there is a point. -/
def isTime (cs : List Char) : Bool :=
  isHourMinute (cs.take 5) &&
    match cs.drop 5 with
    | ':' :: s1 :: s2 :: rest =>
      isField 2 0 60 [s1, s2] &&
        match rest with
        | [] => true
        | '.' :: digits => !digits.isEmpty && digits.all isDigit
        | _ => false
    | _ => false

/-- A time of day that may have an offset from UTC. -/
def isOffsetTime (cs : List Char) : Bool :=
  let zoneless := cs.takeWhile fun c => isDigit c || c == ':' || c == '.'
  isTime zoneless &&
    match cs.drop zoneless.length with
    | [] => true
    | [z] => z == 'Z' || z == 'z'
    | sign :: offset => (sign == '+' || sign == '-') && isHourMinute offset

/-- A local date, a local time, or a date and a time with a letter between them. -/
def datetime? (cs : List Char) : Option Toml :=
  let isMoment := match cs.drop 10 with
    | [] => isDate cs
    | delimiter :: time =>
      (delimiter == 'T' || delimiter == 't') && isDate (cs.take 10) && isOffsetTime time
  if isMoment || isTime cs then some (.datetime (String.ofList cs)) else none

def boolean? (cs : List Char) : Option Toml :=
  if cs = "true".toList then some (.boolean true)
  else if cs = "false".toList then some (.boolean false)
  else none

/-- The scalar that a run of characters without blanks writes. -/
def scalar? (cs : List Char) : Option Toml :=
  (boolean? cs).or <| (integer? cs).or <| (float? cs).or <| datetime? cs

/-- Characters of scalars other than strings. -/
def isScalarChar (c : Char) : Bool :=
  c.isAlphanum || c == '+' || c == '-' || c == '_' || c == '.' || c == ':'

/-- Reads a scalar. A date may be followed by a blank and a time. -/
def readScalar? (cs : List Char) : Option (Toml × List Char) :=
  let run := cs.takeWhile isScalarChar
  let rest := cs.dropWhile isScalarChar
  let time := (rest.drop 1).takeWhile isScalarChar
  if isDate run && rest.head? == some ' ' && (time.head?.any isDigit) then
    if isOffsetTime time then
      some (.datetime (String.ofList (run ++ ' ' :: time)), (rest.drop 1).dropWhile isScalarChar)
    else none
  else (scalar? run).map fun item => (item, rest)

end SchemaLex.Toml

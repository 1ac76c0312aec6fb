import SchemaLex.Json.Basic
import SchemaLex.Binary64.Layout

/-! # JSON text

Values are written without blanks. A string escapes the quote, the backslash and the characters
below U+0020, and nothing else. -/

namespace SchemaLex.Json

def hexDigit (n : Nat) : Char := (Nat.digitChar n)

/-- The four base-sixteen digits of a sixteen-bit code. -/
def fourHexDigits (code : Nat) : List Char :=
  [hexDigit (code / 4096 % 16), hexDigit (code / 256 % 16), hexDigit (code / 16 % 16),
    hexDigit (code % 16)]

/-- How one character of a string is written. -/
def escapedChar (c : Char) : List Char :=
  if c = '\x22' then ['\\', '\x22']
  else if c = '\\' then ['\\', '\\']
  else if c = '\x08' then ['\\', 'b']
  else if c = '\x0c' then ['\\', 'f']
  else if c = '\n' then ['\\', 'n']
  else if c = '\r' then ['\\', 'r']
  else if c = '\t' then ['\\', 't']
  else if c.toNat < 0x20 then ['\\', 'u'] ++ fourHexDigits c.toNat
  else [c]

def Unit.render : Unit → List Char
  | .char c => escapedChar c
  | .surrogate code => ['\\', 'u'] ++ fourHexDigits code

def renderString (units : List Unit) : List Char :=
  '\x22' :: units.flatMap Unit.render ++ ['\x22']

namespace Numeral

def render (n : Numeral) : List Char :=
  (if n.negative then ['-'] else []) ++ n.whole ++
    (if n.fraction.isEmpty then [] else '.' :: n.fraction) ++
    match n.exponent with
    | none => []
    | some (negative, digits) => 'e' :: (if negative then '-' else '+') :: digits

/-- The numeral of a decimal: plain notation with a fraction when the first digit stands for
`10 ^ -5` to `10 ^ 15`, else one digit before the point and an exponent with its sign. -/
def ofDecimal (negative : Bool) (d : Binary64.Decimal) : Numeral :=
  if -5 ≤ d.magnitude ∧ d.magnitude ≤ 15 then
    let (whole, fraction) := d.split
    ⟨negative, whole, if fraction.isEmpty then ['0'] else fraction, none⟩
  else
    let digits := Binary64.decimalDigits d.digits
    ⟨negative, digits.take 1, digits.drop 1,
      some (d.magnitude < 0, Binary64.decimalDigits d.magnitude.natAbs)⟩

end Numeral

/-- A number is written with its shortest digits; what is not finite has no numeral and is null. -/
def ofBinary64 : Binary64 → Json
  | .finite negative code =>
    if code.val = 0 then .number ⟨negative, ['0'], ['0'], none⟩
    else .number (Numeral.ofDecimal negative (Binary64.shortest .even code.val))
  | _ => .null

mutual

def render : Json → List Char
  | .null => "null".toList
  | .bool value => if value then "true".toList else "false".toList
  | .number numeral => numeral.render
  | .string units => renderString units
  | .array items => '[' :: renderItems items ++ [']']
  | .object members => '\x7b' :: renderMembers members ++ ['\x7d']

def renderItems : List Json → List Char
  | [] => []
  | [item] => item.render
  | item :: rest => item.render ++ ',' :: renderItems rest

def renderMembers : List (List Unit × Json) → List Char
  | [] => []
  | [(key, value)] => renderString key ++ ':' :: value.render
  | (key, value) :: rest => renderString key ++ ':' :: value.render ++ ',' :: renderMembers rest

end

def text (j : Json) : String := String.ofList j.render

end SchemaLex.Json

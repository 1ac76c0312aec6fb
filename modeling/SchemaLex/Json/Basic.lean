/-! # JSON values

A value keeps the written form of what it holds: numerals keep their digits and strings their
units, so that reading a text decides nothing about numbers that are too large or about escapes
that name no character. -/

namespace SchemaLex

/-- A number as it is written. An empty fraction means that there is no point; the flag of an
exponent says that it is negative. -/
structure Json.Numeral where
  negative : Bool
  whole : List Char
  fraction : List Char
  exponent : Option (Bool × List Char)
deriving DecidableEq, Repr

/-- One unit of a string: a character, or an escaped surrogate, which is half of one. -/
inductive Json.Unit where
  | char (c : Char)
  | surrogate (code : Nat)
deriving DecidableEq, Repr

inductive Json where
  | null
  | bool (value : Bool)
  | number (numeral : Json.Numeral)
  | string (units : List Json.Unit)
  | array (items : List Json)
  | object (members : List (List Json.Unit × Json))
deriving Repr

namespace Json

namespace Unit

/-- The unit of a sixteen-bit code. -/
def ofCode (code : Nat) : Unit :=
  if 0xd800 ≤ code ∧ code < 0xe000 then .surrogate code else .char (Char.ofNat code)

end Unit

/-- The text that units spell: two surrogates, high and low, make one character, and no other
surrogate makes any. -/
def decode : List Unit → Option (List Char)
  | [] => some []
  | .char c :: rest => (decode rest).map (c :: ·)
  | .surrogate high :: .surrogate low :: rest =>
    if high < 0xdc00 ∧ 0xdc00 ≤ low then
      (decode rest).map (Char.ofNat (0x10000 + (high - 0xd800) * 0x400 + (low - 0xdc00)) :: ·)
    else none
  | .surrogate _ :: _ => none

def encode (text : List Char) : List Unit := text.map .char

@[simp] theorem decode_encode (text : List Char) : decode (encode text) = some text := by
  induction text with
  | nil => rfl
  | cons c rest ih =>
    have step : decode (encode (c :: rest)) = (decode (encode rest)).map (c :: ·) := by
      simp [encode, decode]
    rw [step, ih]
    rfl

def ofString (text : String) : Json := .string (encode text.toList)

def ofInt (n : Int) : Json :=
  .number ⟨n < 0, Nat.toDigits 10 n.natAbs, [], none⟩

end Json

end SchemaLex

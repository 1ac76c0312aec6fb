/-! # Binary floating point numbers of 64 bits

A finite magnitude is stored as its bit pattern without the sign, its *code*. Codes count the
representable magnitudes upwards from zero, so rounding is arithmetic on natural numbers and every
operation below is one exact quotient of natural numbers, rounded once to the nearest code with
ties to the even one. There is a single NaN. -/

namespace SchemaLex

/-- The number of finite magnitudes: 2047 exponents with 2 ^ 52 fractions each. -/
def Binary64.codes : Nat := 2047 * Nat.pow 2 52

inductive Binary64 where
  | nan
  | infinity (negative : Bool)
  | finite (negative : Bool) (code : Fin Binary64.codes)
deriving DecidableEq, Repr

namespace Binary64

/-- The number of units in one; a unit, 2 ^ -1074, is the smallest positive magnitude. -/
def unitsPerOne : Nat := Nat.pow 2 1074

/-- The magnitude of a code, counted in units. -/
def units (code : Nat) : Nat :=
  if code < Nat.pow 2 53 then code
  else (Nat.pow 2 52 + code % Nat.pow 2 52) * Nat.pow 2 (code / Nat.pow 2 52 - 1)

/-- The distance from the magnitude of a code to the next larger one, in units. -/
def gap (code : Nat) : Nat := Nat.pow 2 (code / Nat.pow 2 52 - 1)

/-- The quotient rounded to the nearest natural number, a tie to the even one. -/
def roundHalfEven (num den : Nat) : Nat :=
  let q := num / den
  let r := num % den
  if 2 * r < den ∨ (2 * r = den ∧ q % 2 = 0) then q else q + 1

/-- The code nearest to a quotient of units; codes from `codes` on are beyond the finite range. -/
def nearestCode (num den : Nat) : Nat :=
  let shift := (num / den).log2 - 52
  shift * Nat.pow 2 52 + roundHalfEven num (den * Nat.pow 2 shift)

def ofCode (negative : Bool) (code : Nat) : Binary64 :=
  if h : code < codes then .finite negative ⟨code, h⟩ else .infinity negative

/-- The number nearest to a quotient of units. -/
def ofUnits (negative : Bool) (num den : Nat) : Binary64 :=
  ofCode negative (nearestCode num den)

/-- The number nearest to a quotient. -/
def ofRatio (negative : Bool) (num den : Nat) : Binary64 := ofUnits negative (num * unitsPerOne) den

def zero (negative : Bool) : Binary64 := .finite negative ⟨0, by decide⟩

/-- The number nearest to `digits * 10 ^ exponent`. -/
def ofDecimal (negative : Bool) (digits : Nat) (exponent : Int) : Binary64 :=
  if 0 ≤ exponent then ofRatio negative (digits * Nat.pow 10 exponent.toNat) 1
  else ofRatio negative digits (Nat.pow 10 (-exponent).toNat)

def isNaN : Binary64 → Bool
  | .nan => true
  | _ => false

def isFinite : Binary64 → Bool
  | .finite _ _ => true
  | _ => false

def isZero : Binary64 → Bool
  | .finite _ code => code.val == 0
  | _ => false

/-- Numerical equality: a NaN equals nothing and the two zeros are equal. -/
def equals : Binary64 → Binary64 → Bool
  | .nan, _ | _, .nan => false
  | x, y => x == y || (x.isZero && y.isZero)

/-- The sixty-four bits of a number. -/
def toBits : Binary64 → Nat
  | .nan => 0x7ff8000000000000
  | .infinity negative => (if negative then Nat.pow 2 63 else 0) + codes
  | .finite negative code => (if negative then Nat.pow 2 63 else 0) + code.val

/-- The number with given sixty-four bits. -/
def ofBits (bits : Nat) : Binary64 :=
  let code := bits % Nat.pow 2 63
  let negative := bits / Nat.pow 2 63 % 2 == 1
  if codes < code then .nan else ofCode negative code

/-- The product of two magnitudes with the sign of the first. -/
def mul : Binary64 → Binary64 → Binary64
  | .finite s a, .finite _ b => ofUnits s (units a * units b) unitsPerOne
  | x, _ => x

/-- The quotient of two magnitudes with the sign of the first. -/
def div : Binary64 → Binary64 → Binary64
  | .finite s a, .finite _ b => ofUnits s (units a * unitsPerOne) (units b)
  | x, _ => x

/-- `16 * x + digit`, rounded once. -/
def appendHexDigit : Binary64 → Nat → Binary64
  | .finite s code, digit => ofUnits s (units code * 16 + digit * unitsPerOne) 1
  | x, _ => x

/-- The number that base-sixteen digits give when each one is appended with a rounding of its
own. -/
def ofHexDigits (digits : List Nat) : Binary64 := digits.foldl appendHexDigit (zero false)

/-- Whether a number is more than one half. -/
def exceedsHalf : Binary64 → Bool
  | .finite false code => unitsPerOne < 2 * units code
  | .infinity false => true
  | _ => false

end Binary64

end SchemaLex

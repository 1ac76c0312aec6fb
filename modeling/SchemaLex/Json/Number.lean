import SchemaLex.Binary64.Basic
import SchemaLex.Json.Basic
import SchemaLex.Text.CharClass

/-! # The numbers that numerals stand for

The significand of a numeral is held in sixty-four bits and the power of ten is applied to it by
multiplication or division of binary numbers, so a long numeral need not be read to the nearest
binary number. -/

namespace SchemaLex.Json.Numeral

/-- Appends digits to a significand as long as it fits in sixty-four bits; the second part is the
number of digits taken. -/
def takeDigits (significand : Nat) : List Char → Nat × Nat
  | [] => (significand, 0)
  | c :: cs =>
    let next := significand * 10 + digitValue c
    if next < Nat.pow 2 64 then
      let (result, taken) := takeDigits next cs
      (result, taken + 1)
    else (significand, 0)

/-- The significand with its power of ten. Digits that do not fit are counted before the point
and left out after it. -/
def significand (n : Numeral) : Nat × Int :=
  let (whole, wholeTaken) := takeDigits 0 n.whole
  let (all, fractionTaken) := takeDigits whole n.fraction
  (all, (n.whole.length - wholeTaken : Int) - fractionTaken)

def exponentValue (n : Numeral) : Int :=
  match n.exponent with
  | none => 0
  | some (negative, digits) => if negative then -(ofDigits 10 digits : Int) else ofDigits 10 digits

/-- A magnitude times a power of ten; nothing when it leaves the finite range. Powers beyond
`10 ^ 308` are applied in steps. -/
def scale? (x : Binary64) (exponent : Int) : Option Binary64 :=
  if -308 ≤ exponent ∧ exponent < 0 then
    some (x.div (.ofDecimal false 1 (-exponent)))
  else if 0 ≤ exponent ∧ exponent ≤ 308 then
    let product := x.mul (.ofDecimal false 1 exponent)
    if product.isFinite then some product else none
  else if x.isZero then some x
  else if 0 ≤ exponent then none
  else scale? (x.div (.ofDecimal false 1 308)) (exponent + 308)
termination_by exponent.natAbs
decreasing_by omega

/-- The binary number that a numeral stands for. -/
def toBinary64? (n : Numeral) : Option Binary64 :=
  let (digits, shift) := n.significand
  scale? (.ofRatio n.negative digits 1) (shift + n.exponentValue)

/-- The integer that a numeral stands for when it is written as one and fits in sixty-four bits
with sign. Negative zero is no integer. -/
def toInt64? (n : Numeral) : Option Int64 :=
  if n.fraction.isEmpty ∧ n.exponent.isNone then
    let value := ofDigits 10 n.whole
    if n.negative then
      if 0 < value ∧ value ≤ Nat.pow 2 63 then some (Int64.ofInt (-value)) else none
    else if value < Nat.pow 2 63 then some (Int64.ofNat value) else none
  else none

end SchemaLex.Json.Numeral

import SchemaLex.Binary64.Shortest

/-! # Plain decimal text of numbers -/

namespace SchemaLex.Binary64

def decimalDigits (n : Nat) : List Char := Nat.toDigits 10 n

namespace Decimal

/-- The digits before and after the point in plain notation; the second part is empty for an
integer. -/
def split (d : Decimal) : List Char × List Char :=
  let digits := decimalDigits d.digits
  if 0 ≤ d.exponent then (digits ++ List.replicate d.exponent.toNat '0', [])
  else
    let places := (-d.exponent).toNat
    if places < digits.length then
      (digits.take (digits.length - places), digits.drop (digits.length - places))
    else (['0'], List.replicate (places - digits.length) '0' ++ digits)

/-- The power of ten for which the first digit stands. -/
def magnitude (d : Decimal) : Int := (decimalDigits d.digits).length + d.exponent - 1

end Decimal

def sign (negative : Bool) : List Char := if negative then ['-'] else []

/-- The text shown for a number: the shortest digits, never an exponent, and a point only before
a fraction. Of two equally near decimals the larger magnitude is shown. -/
def display : Binary64 → String
  | .nan => "NaN"
  | .infinity negative => if negative then "-inf" else "inf"
  | .finite negative code =>
    let (whole, fraction) := (shortest .up code.val).split
    String.ofList (sign negative ++ whole ++ if fraction.isEmpty then [] else '.' :: fraction)

end SchemaLex.Binary64

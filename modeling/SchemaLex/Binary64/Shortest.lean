import SchemaLex.Binary64.Basic

/-! # Shortest decimal digits

A magnitude is written with the fewest decimal digits that read back to it: the multiple of the
largest power of ten that lies among the reals which round to the magnitude. -/

namespace SchemaLex.Binary64

/-- Which of two equally near decimals is taken. -/
inductive Tie where
  | even
  | up
deriving DecidableEq, Repr

/-- The decimal `digits * 10 ^ exponent`. -/
structure Decimal where
  digits : Nat
  exponent : Int
deriving DecidableEq, Repr

/-- The reals that round to a magnitude, with the magnitude itself, all counted in quarter units.
The ends belong to the interval when the code is even. -/
structure Interval where
  low : Nat
  value : Nat
  high : Nat
  closed : Bool
deriving DecidableEq, Repr

/-- The interval of a code. Below a power of two the next smaller magnitude is at half the
distance. -/
def interval (code : Nat) : Interval :=
  let above := gap code
  let halved := code % Nat.pow 2 52 == 0 && Nat.pow 2 53 ≤ code
  let below := if halved then above else 2 * above
  { low := 4 * units code - below
    value := 4 * units code
    high := 4 * units code + 2 * above
    closed := code % 2 == 0 }

namespace Interval

/-- Whether a point lies in the interval once both are stretched by the same factor. -/
def contains (i : Interval) (factor point : Nat) : Bool :=
  if i.closed then i.low * factor ≤ point && point ≤ i.high * factor
  else i.low * factor < point && point < i.high * factor

/-- A multiple of `10 ^ exponent` in the interval, the nearest to the magnitude if there are
several. Only the two neighbours of the magnitude need a look. -/
def multiple? (i : Interval) (tie : Tie) (exponent : Int) : Option Nat :=
  let factor := Nat.pow 10 (-exponent).toNat
  let step := 4 * unitsPerOne * Nat.pow 10 exponent.toNat
  let value := i.value * factor
  let lower := value / step
  let rest := value % step
  match i.contains factor (lower * step), i.contains factor ((lower + 1) * step) with
  | true, true =>
    if 2 * rest < step then some lower
    else if step < 2 * rest then some (lower + 1)
    else match tie with
      | .even => some (if lower % 2 == 0 then lower else lower + 1)
      | .up => some (lower + 1)
  | true, false => some lower
  | false, true => some (lower + 1)
  | false, false => none

/-- Tries the powers of ten from `exponent` downwards, one for each step of the fuel. -/
def search (i : Interval) (tie : Tie) : Nat → Int → Decimal
  | 0, exponent => ⟨0, exponent⟩
  | fuel + 1, exponent =>
    match i.multiple? tie exponent with
    | some digits => ⟨digits, exponent⟩
    | none => search i tie fuel (exponent - 1)

end Interval

/-- The shortest decimal of the magnitude of a code. No magnitude reaches `10 ^ 309`, and between
`10 ^ 309` and `10 ^ -324` a multiple is always found, because the interval of the smallest
magnitude is wider than `10 ^ -324`. -/
def shortest (tie : Tie) (code : Nat) : Decimal :=
  if code = 0 then ⟨0, 0⟩ else (interval code).search tie 634 309

end SchemaLex.Binary64

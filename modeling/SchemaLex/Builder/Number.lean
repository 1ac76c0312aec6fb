import SchemaLex.Lexeme
import SchemaLex.Text.CharClass

/-! # Reading number lexemes

A number keeps its kind whatever its size. An integer that does not fit in sixty-four bits with
sign carries a float, and text with no numeric reading carries NaN; both are malformed. -/

namespace SchemaLex.Builder

/-- A number lexeme with a token of its kind. -/
def wellFormed (text : List Char) (token : Token) : Lexeme := ⟨text, token, .code, none⟩

/-- A number lexeme that is reported and carries a float in place of its reading. -/
def malformed (text : List Char) (kind : NumberKind) (value : Binary64) : Lexeme :=
  ⟨text, ⟨.number kind, .float value⟩, .code, some .malformedNumber⟩

/-- Whether a natural number fits in sixty-four bits with sign. -/
def fits (n : Nat) : Bool := n < Nat.pow 2 63

/-- The lexeme of a base-sixteen number with the given digits after its mark. -/
def hexNumber (digits : List Char) : Lexeme :=
  let text := '0' :: 'x' :: digits
  let value := ofDigits 16 digits
  if digits.isEmpty then malformed text .integer .nan
  else if fits value then wellFormed text (.integer (Int64.ofNat value))
  else malformed text .integer (.ofHexDigits (digits.map digitValue))

/-- The value of digits with one point among them: the digits as an integer, divided by the power
of ten for the places after the point. -/
def pointValue (run : List Char) : Binary64 :=
  let places := (run.dropWhile (· != '.')).length - 1
  .ofDecimal false (ofDigits 10 (run.filter (· != '.'))) (-(places : Int))

/-- The lexeme of a run of digits and points. -/
def decimalNumber (run : List Char) : Lexeme :=
  if run.contains '.' then
    if run.count '.' = 1 then wellFormed run (.float (pointValue run))
    else malformed run .float .nan
  else
    let value := ofDigits 10 run
    if fits value then wellFormed run (.integer (Int64.ofNat value))
    else malformed run .integer (.ofDecimal false value 0)

@[simp] theorem text_hexNumber (digits : List Char) :
    (hexNumber digits).text = '0' :: 'x' :: digits := by
  simp only [hexNumber]
  split
  · rfl
  · split <;> rfl

@[simp] theorem text_decimalNumber (run : List Char) : (decimalNumber run).text = run := by
  simp only [decimalNumber]
  split
  · split <;> rfl
  · split <;> rfl

end SchemaLex.Builder

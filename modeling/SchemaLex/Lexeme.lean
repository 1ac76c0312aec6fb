import SchemaLex.Text.Bytes
import SchemaLex.Token.Basic

/-! # Lexemes

A scan cuts its source into segments: blanks, which yield nothing, and lexemes, each of which
yields one token. Tokens, metrics and log events are all functions of the segments. -/

namespace SchemaLex

/-- The part that a lexeme plays in the structure of comments. -/
inductive Role where
  /-- Outside comments. -/
  | code
  /-- A comment marker that is a token of its own. -/
  | marker
  /-- A whole comment, or the body of one whose markers are tokens of their own. -/
  | comment
deriving DecidableEq, Repr

/-- A fault in a lexeme that a scan reports and reads past. -/
inductive Defect where
  /-- A block comment that runs to the end of the source, with its text from the start marker. -/
  | openComment (text : List Char)
  | malformedNumber
deriving DecidableEq, Repr

structure Lexeme where
  /-- The source text that the lexeme covers. -/
  text : List Char
  token : Token
  role : Role := .code
  defect : Option Defect := none
deriving DecidableEq, Repr

namespace Lexeme

/-- A lexeme outside comments whose token carries its text. -/
def plain (kind : Kind) (text : List Char) : Lexeme := ⟨text, .text kind text, .code, none⟩

@[simp] theorem text_plain (kind : Kind) (text : List Char) : (plain kind text).text = text := rfl

@[simp] theorem token_plain (kind : Kind) (text : List Char) :
    (plain kind text).token = .text kind text := rfl

def isUnterminated (l : Lexeme) : Bool :=
  match l.defect with
  | some (.openComment _) => true
  | _ => false

theorem countP_isUnterminated_eq_zero {ls : List Lexeme}
    (h : ∀ l ∈ ls, l.isUnterminated = false) : ls.countP (·.isUnterminated) = 0 := by
  rw [List.countP_eq_zero]
  intro l hl
  rw [h l hl]
  exact Bool.false_ne_true

end Lexeme

inductive Segment where
  | blank (c : Char)
  | lexeme (l : Lexeme)
deriving DecidableEq, Repr

namespace Segment

def text : Segment → List Char
  | .blank c => [c]
  | .lexeme l => l.text

def lexeme? : Segment → Option Lexeme
  | .blank _ => none
  | .lexeme l => some l

@[simp] theorem text_blank (c : Char) : (blank c).text = [c] := rfl
@[simp] theorem text_lexeme (l : Lexeme) : (lexeme l).text = l.text := rfl
@[simp] theorem lexeme?_blank (c : Char) : (blank c).lexeme? = none := rfl
@[simp] theorem lexeme?_lexeme (l : Lexeme) : (lexeme l).lexeme? = some l := rfl

end Segment

/-- The lexemes of a list of segments. -/
def lexemes (segments : List Segment) : List Lexeme := segments.filterMap Segment.lexeme?

@[simp] theorem lexemes_nil : lexemes [] = [] := rfl

@[simp] theorem lexemes_blank (c : Char) (segments : List Segment) :
    lexemes (.blank c :: segments) = lexemes segments := rfl

@[simp] theorem lexemes_lexeme (l : Lexeme) (segments : List Segment) :
    lexemes (.lexeme l :: segments) = l :: lexemes segments := rfl

@[simp] theorem lexemes_append (as bs : List Segment) :
    lexemes (as ++ bs) = lexemes as ++ lexemes bs := by
  simp [lexemes]

/-- The tokens of a list of segments. -/
def tokensOf (segments : List Segment) : List Token := (lexemes segments).map (·.token)

/-- The source text of a list of segments. -/
def textOf (segments : List Segment) : List Char := segments.flatMap Segment.text

/-- The lexemes, each with the byte at which it starts, when the first segment starts at
`offset`. -/
def located (offset : Nat) : List Segment → List (Nat × Lexeme)
  | [] => []
  | .blank c :: rest => located (offset + c.utf8Size) rest
  | .lexeme l :: rest => (offset, l) :: located (offset + Text.byteLength l.text) rest

@[simp] theorem map_snd_located (offset : Nat) (segments : List Segment) :
    (located offset segments).map (·.2) = lexemes segments := by
  induction segments generalizing offset with
  | nil => rfl
  | cons s rest ih =>
    cases s with
    | blank c => simp [located, ih]
    | lexeme l => simp [located, ih]

end SchemaLex

import SchemaLex.Config.Preferences
import SchemaLex.Lexeme
import SchemaLex.Token.Counts

/-! # Metrics of a scan -/

namespace SchemaLex

/-- Tallies kept while lexemes are found. -/
structure Metrics where
  total : Nat := 0
  keywords : Nat := 0
  identifiers : Nat := 0
  literals : Nat := 0
  numbers : Nat := 0
  operators : Nat := 0
  delimiters : Nat := 0
  comments : Nat := 0
  unknown : Nat := 0
  /-- The bytes of the longest comment or comment body. -/
  maxCommentLength : Nat := 0
  unterminatedComments : Nat := 0
  /-- The uses of each operator, in the order of their first use. -/
  operatorUses : List (Operator × Nat) := []
deriving DecidableEq, Repr

namespace Metrics

/-- Counts one more use of an operator. -/
def addUse (op : Operator) : List (Operator × Nat) → List (Operator × Nat)
  | [] => [(op, 1)]
  | (o, n) :: rest => if o = op then (o, n + 1) :: rest else (o, n) :: addUse op rest

/-- Tallies a token by its class. -/
def addClass (m : Metrics) (trackOperators : Bool) : Kind → Metrics
  | .keyword _ => { m with keywords := m.keywords + 1 }
  | .number _ => { m with numbers := m.numbers + 1 }
  | .operator op =>
    { m with
      operators := m.operators + 1
      operatorUses := if trackOperators then addUse op m.operatorUses else m.operatorUses }
  | .delimiter _ => { m with delimiters := m.delimiters + 1 }
  | .comment _ => { m with comments := m.comments + 1 }
  | .identifier => { m with identifiers := m.identifiers + 1 }
  | .literal => { m with literals := m.literals + 1 }
  | .unknown => m

/-- Tallies a token. Unknown tokens are counted in any case, the other classes only on wish. -/
def addToken (m : Metrics) (preferences : LexicalPreferences) (kind : Kind) : Metrics :=
  let m := { m with total := m.total + 1 }
  if kind = .unknown then { m with unknown := m.unknown + 1 }
  else if preferences.detailedMetrics then m.addClass preferences.trackOperators kind
  else m

/-- Notes the length of a comment. -/
def addComment (m : Metrics) (l : Lexeme) : Metrics :=
  match l.role with
  | .comment => { m with maxCommentLength := max m.maxCommentLength (Text.byteLength l.text) }
  | _ => m

def addDefect (m : Metrics) (l : Lexeme) : Metrics :=
  if l.isUnterminated then { m with unterminatedComments := m.unterminatedComments + 1 } else m

def add (preferences : LexicalPreferences) (m : Metrics) (l : Lexeme) : Metrics :=
  ((m.addToken preferences l.token.kind).addComment l).addDefect l

def ofLexemes (preferences : LexicalPreferences) (lexemes : List Lexeme) : Metrics :=
  lexemes.foldl (add preferences) {}

@[simp] theorem unterminatedComments_addClass (m : Metrics) (track : Bool) (kind : Kind) :
    (m.addClass track kind).unterminatedComments = m.unterminatedComments := by
  cases kind <;> rfl

@[simp] theorem unterminatedComments_addToken (m : Metrics) (preferences : LexicalPreferences)
    (kind : Kind) : (m.addToken preferences kind).unterminatedComments = m.unterminatedComments := by
  simp only [addToken]
  split
  · rfl
  · split
    · rw [unterminatedComments_addClass]
    · rfl

@[simp] theorem unterminatedComments_addComment (m : Metrics) (l : Lexeme) :
    (m.addComment l).unterminatedComments = m.unterminatedComments := by
  unfold addComment
  split <;> rfl

theorem unterminatedComments_add (preferences : LexicalPreferences) (m : Metrics) (l : Lexeme) :
    (add preferences m l).unterminatedComments =
      m.unterminatedComments + if l.isUnterminated then 1 else 0 := by
  unfold add addDefect
  split <;> simp_all

/-- A number to which each lexeme adds one or nothing counts lexemes. -/
theorem count_ofLexemes {preferences : LexicalPreferences} (number : Metrics → Nat)
    {p : Lexeme → Bool}
    (hadd : ∀ m l, number (add preferences m l) = number m + if p l then 1 else 0)
    (ls : List Lexeme) : number (ofLexemes preferences ls) = number {} + ls.countP p := by
  have hfold : ∀ m : Metrics,
      number (ls.foldl (add preferences) m) = number m + ls.countP p := by
    induction ls with
    | nil => intro m; rfl
    | cons l ls ih =>
      intro m
      rw [List.foldl_cons, ih, hadd, List.countP_cons]
      omega
  exact hfold {}

/-- The metrics count the comments that are left open. -/
theorem unterminatedComments_ofLexemes (preferences : LexicalPreferences) (ls : List Lexeme) :
    (ofLexemes preferences ls).unterminatedComments = ls.countP (·.isUnterminated) :=
  (count_ofLexemes (·.unterminatedComments) (unterminatedComments_add preferences) ls).trans
    (Nat.zero_add _)

/-- The share of unknown tokens. -/
def unknownRatio (m : Metrics) : Binary64 := share m.unknown m.total

end Metrics

end SchemaLex

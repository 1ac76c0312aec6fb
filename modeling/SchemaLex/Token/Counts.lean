import SchemaLex.Binary64.Basic
import SchemaLex.Token.Significance

/-! # Token counts -/

namespace SchemaLex

/-- How many tokens of a list belong to each class. Comments include the bodies that stand as
literals of their own. -/
structure Counts where
  total : Nat := 0
  keywords : Nat := 0
  identifiers : Nat := 0
  literals : Nat := 0
  numbers : Nat := 0
  operators : Nat := 0
  delimiters : Nat := 0
  comments : Nat := 0
  unknown : Nat := 0
deriving DecidableEq, Repr

namespace Counts

/-- Counts one more token. -/
def add (counts : Counts) (token : Token) (significant : Bool) : Counts :=
  let counts := { counts with total := counts.total + 1 }
  match token.kind with
  | .keyword _ => { counts with keywords := counts.keywords + 1 }
  | .number _ => { counts with numbers := counts.numbers + 1 }
  | .operator _ => { counts with operators := counts.operators + 1 }
  | .delimiter _ => { counts with delimiters := counts.delimiters + 1 }
  | .comment _ => { counts with comments := counts.comments + 1 }
  | .identifier => { counts with identifiers := counts.identifiers + 1 }
  | .literal =>
    if significant then { counts with literals := counts.literals + 1 }
    else { counts with comments := counts.comments + 1 }
  | .unknown => { counts with unknown := counts.unknown + 1 }

def ofTokens (tokens : List Token) : Counts :=
  (Token.mark tokens).foldl (fun counts (token, significant) => counts.add token significant) {}

/-- The number of tokens outside comments. -/
def significant (counts : Counts) : Nat := counts.total - counts.comments

/-- Whether there is anything that a parser could use. -/
def hasContent (counts : Counts) : Bool :=
  0 < counts.keywords || 0 < counts.identifiers || 0 < counts.literals || 0 < counts.numbers

end Counts

/-- The share of a part in a total, zero for an empty total. -/
def share (part total : Nat) : Binary64 :=
  if total = 0 then .zero false else .ofRatio false part total

namespace Counts

def unknownRatio (counts : Counts) : Binary64 := share counts.unknown counts.total

end Counts

end SchemaLex

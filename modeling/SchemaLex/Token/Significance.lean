import SchemaLex.Token.Basic

/-! # Significant tokens

A parser sees the tokens outside comments. A line-comment marker takes a directly following
literal with it, which is its body; a block-comment start takes everything up to the next
block-comment end. -/

namespace SchemaLex

namespace Token

/-- Where the walk over a token list stands. -/
inductive Region where
  | code
  | afterLineMarker
  | inBlock
deriving DecidableEq, Repr

namespace Region

/-- Whether a token is significant outside block comments, and the region after it. -/
def enter (kind : Kind) : Bool × Region :=
  match kind with
  | .comment .line => (false, .afterLineMarker)
  | .comment .blockStart => (false, .inBlock)
  | .comment .block | .comment .blockEnd => (false, .code)
  | _ => (true, .code)

/-- Whether the next token is significant, and the region after it. -/
def step (region : Region) (kind : Kind) : Bool × Region :=
  match region, kind with
  | .inBlock, .comment .blockEnd => (false, .code)
  | .inBlock, _ => (false, .inBlock)
  | .afterLineMarker, .literal => (false, .code)
  | _, kind => enter kind

end Region

/-- The tokens, each with the mark of its significance. -/
def markFrom (region : Region) : List Token → List (Token × Bool)
  | [] => []
  | token :: rest =>
    let (significant, next) := region.step token.kind
    (token, significant) :: markFrom next rest

def mark (tokens : List Token) : List (Token × Bool) := markFrom .code tokens

@[simp] theorem length_markFrom (region : Region) (tokens : List Token) :
    (markFrom region tokens).length = tokens.length := by
  induction tokens generalizing region with
  | nil => rfl
  | cons token rest ih => simp [markFrom, ih]

/-- The positions of the significant tokens, in order. -/
def significantIndices (tokens : List Token) : List Nat :=
  (mark tokens).zipIdx.filterMap fun ((_, significant), index) =>
    if significant then some index else none

end Token

end SchemaLex

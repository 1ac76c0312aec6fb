import SchemaLex.Token.Significance

/-! # Token streams

A cursor over a finished token list. The stream keeps every token and moves over the significant
ones. -/

namespace SchemaLex

structure Stream where
  /-- All tokens in source order. -/
  tokens : Array Token
  /-- Where the significant tokens stand in `tokens`. -/
  indices : Array Nat
  /-- The place of the current token in `indices`. -/
  position : Nat
deriving DecidableEq, Repr

namespace Stream

/-- A position to return to. -/
structure Checkpoint where
  position : Nat
deriving DecidableEq, Repr

inductive Error where
  | unexpectedToken (expected : Kind) (found : Token)
  | unexpectedEnd (expected : Kind)
deriving DecidableEq, Repr

namespace Error

def code : Error → Code
  | .unexpectedToken _ _ => .unexpectedToken
  | .unexpectedEnd _ => .unexpectedEnd

def message : Error → String
  | .unexpectedToken expected found =>
    "Expected '" ++ expected.name ++ "', found '" ++ found.display ++ "'"
  | .unexpectedEnd expected => "Expected '" ++ expected.name ++ "', found end of input"

end Error

def ofTokens (tokens : List Token) : Stream :=
  ⟨tokens.toArray, (Token.significantIndices tokens).toArray, 0⟩

/-- The significant token `n` places ahead of the current one. -/
def peekAhead (s : Stream) (n : Nat) : Option Token :=
  s.indices[s.position + n]?.bind (s.tokens[·]?)

def current (s : Stream) : Option Token := s.peekAhead 0

def peek (s : Stream) : Option Token := s.peekAhead 1

/-- The current token and the stream after it. At the end nothing moves. -/
def advance (s : Stream) : Option Token × Stream :=
  match s.indices[s.position]? with
  | none => (none, s)
  | some index => (s.tokens[index]?, { s with position := s.position + 1 })

def atEnd (s : Stream) : Bool := s.indices.size ≤ s.position

/-- The number of significant tokens. -/
def size (s : Stream) : Nat := s.indices.size

def isEmpty (s : Stream) : Bool := s.indices.isEmpty

/-- The current token, passed over, if it has a kind. -/
def expect (s : Stream) (kind : Kind) : Except Error (Token × Stream) :=
  match s.current with
  | none => .error (.unexpectedEnd kind)
  | some token =>
    if token.kind = kind then .ok (token, s.advance.2)
    else .error (.unexpectedToken kind token)

def checkpoint (s : Stream) : Checkpoint := ⟨s.position⟩

/-- Returns to a checkpoint, or to the end if the checkpoint lies beyond it. -/
def restore (s : Stream) (c : Checkpoint) : Stream :=
  { s with position := min c.position s.indices.size }

def significantTokens (s : Stream) : List Token := s.indices.toList.filterMap (s.tokens[·]?)

def allTokens (s : Stream) : List Token := s.tokens.toList

end Stream

end SchemaLex

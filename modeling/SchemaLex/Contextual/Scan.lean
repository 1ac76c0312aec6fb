import SchemaLex.Contextual.Atom
import SchemaLex.Lexeme

/-! # Scanning by context

What a word becomes is decided when the next atom ends it, by the state that earlier atoms left:
a name after a declaration keyword, the body of a quoted text, the value between an assignment and
a semicolon, a keyword, or unknown. -/

namespace SchemaLex.Contextual

inductive State where
  | idle
  /-- The last token is a declaration keyword; the next word is a name. -/
  | naming
  | doubleQuoted
  | singleQuoted
  /-- Between an assignment and the semicolon that ends it. -/
  | assigning
deriving DecidableEq, Repr

namespace State

/-- The state after a symbol with no word in front of it. A quote opens or closes. -/
def afterSymbol (state : State) : Symbol → State
  | .operator .assignment => .assigning
  | .delimiter .doubleQuotes => if state = .doubleQuoted then .idle else .doubleQuoted
  | .delimiter .singleQuotes => if state = .singleQuoted then .idle else .singleQuoted
  | _ => .idle

/-- Whether a symbol ends the text or value that the state is in. -/
def closedBy : State → Symbol → Bool
  | .doubleQuoted, .delimiter .doubleQuotes => true
  | .singleQuoted, .delimiter .singleQuotes => true
  | .assigning, .delimiter .semicolon => true
  | _, _ => false

/-- The kind of a word that a blank or a comment ends, and the state after it. -/
def endWord (state : State) (word : List Char) : Kind × State :=
  if state = .naming then (.identifier, .idle)
  else match Keyword.ofText? (String.ofList word) with
    | some keyword =>
      (.keyword keyword, if keyword.isDeclaration then .naming else .idle)
    | none => (.unknown, state)

/-- The kind of a word that a symbol ends, and the state after the symbol. -/
def endWordAt (state : State) (symbol : Symbol) : Kind × State :=
  if state = .naming then (.identifier, state.afterSymbol symbol)
  else if state.closedBy symbol then (.literal, .idle)
  else (.unknown, state)

end State

/-- What a scan keeps between atoms: the state, and the word that no atom has ended yet. -/
structure Machine where
  state : State := .idle
  pending : Option (List Char) := none
deriving DecidableEq, Repr

def marker (kind : CommentKind) (text : List Char) (token : List Char) : Segment :=
  .lexeme ⟨text, .text (.comment kind) token, .marker, none⟩

/-- The body of a comment as a literal of its own. -/
def body (text : List Char) : Segment :=
  .lexeme ⟨text, .text .literal text, .comment, none⟩

/-- The start marker of a block comment, reported if the comment is left open. -/
def blockStart (text : List Char) (closed : Bool) : Segment :=
  .lexeme ⟨['/', '*'], .text (.comment .blockStart) ['/', '*'], .marker,
    if closed then none else some (.openComment ('/' :: '*' :: text))⟩

/-- The markers and the body of a comment. A block comment left open is given an end marker that
covers no source text. -/
def commentSegments : Atom → List Segment
  | .strayEnd => [marker .blockEnd ['*', '/'] ['*', '/']]
  | .lineComment text closed =>
    [marker .line ['/', '/'] ['/', '/'], body text] ++ if closed then [.blank '\n'] else []
  | .blockComment text closed =>
    [blockStart text closed, body text,
      marker .blockEnd (if closed then ['*', '/'] else []) ['*', '/']]
  | _ => []

namespace Machine

/-- Ends the pending word as a blank or a comment does. -/
def flush (m : Machine) : List Segment × State :=
  match m.pending with
  | none => ([], m.state)
  | some word =>
    let (kind, state) := m.state.endWord word
    ([.lexeme (.plain kind word)], state)

/-- Ends the pending word as a symbol does. -/
def flushAt (m : Machine) (symbol : Symbol) : List Segment × State :=
  match m.pending with
  | none => ([], m.state.afterSymbol symbol)
  | some word =>
    let (kind, state) := m.state.endWordAt symbol
    ([.lexeme (.plain kind word)], state)

/-- Reads one atom. -/
def step (m : Machine) : Atom → List Segment × Machine
  | .blank c =>
    let (segments, state) := m.flush
    (segments ++ [.blank c], ⟨state, none⟩)
  | .word text => ([], ⟨m.state, some (m.pending.getD [] ++ text)⟩)
  | .symbol c symbol =>
    let (segments, state) := m.flushAt symbol
    (segments ++ [.lexeme (.plain symbol.kind [c])], ⟨state, none⟩)
  | atom => (m.flush.1 ++ commentSegments atom, ⟨.idle, none⟩)

/-- A word that the source ends is unknown, whatever the state. -/
def finish (m : Machine) : List Segment :=
  match m.pending with
  | none => []
  | some word => [.lexeme (.plain .unknown word)]

/-- Reads atoms to the end of the source. -/
def run (m : Machine) : List Atom → List Segment
  | [] => m.finish
  | atom :: rest => (m.step atom).1 ++ (m.step atom).2.run rest

/-- The machine after some atoms. -/
def after (m : Machine) (atoms : List Atom) : Machine :=
  atoms.foldl (fun m atom => (m.step atom).2) m

end Machine

/-- The segments of a source. -/
def segments (cs : List Char) : List Segment := Machine.run {} (atoms cs)

end SchemaLex.Contextual

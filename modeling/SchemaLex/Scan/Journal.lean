import SchemaLex.Log.Event
import SchemaLex.Scan.Metrics

/-! # The log of a scan

One event at the start, one for each lexeme that calls for it, a warning when most tokens are
unknown, and one event with the tallies at the end. -/

namespace SchemaLex.Journal

/-- The most characters of source text that an event quotes. -/
def quotedChars : Nat := 64

/-- The beginning of a text, as events quote it. -/
def quote (text : List Char) : String := String.ofList (text.take quotedChars)

def started (strategy : Strategy) (source : List Char) : Event :=
  (Event.debug "Starting lexical analysis").withEntries
    [("strategy", strategy.name), ("source_bytes", toString (Text.byteLength source))]

def unknownToken (strategy : Strategy) (offset : Nat) (text : List Char) : Event :=
  ((Event.debug "Unknown token").withOffset offset).withEntries
    [("text", quote text), ("strategy", strategy.name)]

def openComment (strategy : Strategy) (offset : Nat) (text : List Char) : Event :=
  ((Event.warning .unterminatedComment "Block comment runs to end of input").withOffset
    offset).withEntries [("text", quote text), ("strategy", strategy.name)]

def malformedNumber (offset : Nat) (text : List Char) (kind : Kind) : Event :=
  ((Event.warning .malformedNumber "Number literal could not be parsed").withOffset
    offset).withEntries [("text", quote text), ("kind", kind.name)]

/-- The events for one lexeme. -/
def ofLexeme (preferences : LexicalPreferences) (offset : Nat) (l : Lexeme) : List Event :=
  match l.defect with
  | some (.openComment text) => [openComment preferences.strategy offset text]
  | some .malformedNumber => [malformedNumber offset l.text l.token.kind]
  | none =>
    if l.token.kind = .unknown ∧ preferences.logUnknown then
      [unknownToken preferences.strategy offset l.text]
    else []

/-- The warning that most tokens are unknown, if they are. -/
def mostlyUnknown (strategy : Strategy) (m : Metrics) : List Event :=
  if m.unknownRatio.exceedsHalf then
    [(Event.warning .unknownToken "Most of the input was not recognized").withEntries
      [("unknown_tokens", toString m.unknown), ("total_tokens", toString m.total),
        ("strategy", strategy.name)]]
  else []

def completed (strategy : Strategy) (m : Metrics) : Event :=
  (Event.success .scanComplete "Lexical analysis completed").withEntries
    [("strategy", strategy.name),
      ("total_tokens", toString m.total),
      ("keyword_tokens", toString m.keywords),
      ("identifier_tokens", toString m.identifiers),
      ("unknown_tokens", toString m.unknown),
      ("unterminated_comments", toString m.unterminatedComments)]

/-- All events of a scan, in order. -/
def ofScan (preferences : LexicalPreferences) (source : List Char) (segments : List Segment)
    (m : Metrics) : List Event :=
  started preferences.strategy source ::
    (located 0 segments).flatMap (fun (offset, l) => ofLexeme preferences offset l) ++
    mostlyUnknown preferences.strategy m ++ [completed preferences.strategy m]

/-- The event for a new token stream. -/
def streamCreated (total significant : Nat) : Event :=
  (Event.debug "Token stream created").withEntries
    [("total_tokens", toString total), ("significant_tokens", toString significant)]

end SchemaLex.Journal

import SchemaLex.Builder.Scan
import SchemaLex.Contextual.Scan
import SchemaLex.Scan.Journal
import SchemaLex.Token.Stream

/-! # Scanning schema sources

A scan never fails: text outside the vocabulary becomes unknown tokens. -/

namespace SchemaLex

/-- The segments into which a strategy cuts a source. -/
def Strategy.segments : Strategy → List Char → List Segment
  | .builder => Builder.segments
  | .contextual => Contextual.segments

/-- What a scan yields. -/
structure Scan where
  tokens : List Token
  metrics : Metrics
  events : List Event
deriving DecidableEq, Repr

/-- Scans a source with the strategy that the preferences name. -/
def scan (preferences : LexicalPreferences) (source : String) : Scan :=
  let cs := source.toList
  let segments := preferences.strategy.segments cs
  let metrics := Metrics.ofLexemes preferences (lexemes segments)
  { tokens := tokensOf segments
    metrics := metrics
    events := Journal.ofScan preferences cs segments metrics }

/-- The event that is logged when a stream over tokens is made. -/
def Stream.created (s : Stream) : Event := Journal.streamCreated s.tokens.size s.size

end SchemaLex

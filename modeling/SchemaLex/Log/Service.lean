import SchemaLex.Config.Preferences
import SchemaLex.Log.Event

/-! # Logging services -/

namespace SchemaLex

/-- Where events go: printed as text, printed as JSON, or kept. -/
inductive Sink where
  | console (detailed : Bool)
  | structured
  | memory
deriving DecidableEq, Repr

/-- A sink behind a gate that lets pass the events up to a level. -/
structure Service where
  sink : Sink
  minLevel : Level
deriving DecidableEq, Repr

namespace Service

def ofPreferences (preferences : LoggingPreferences) : Service :=
  { sink := if preferences.structured then .structured else .console preferences.detailed
    minLevel := preferences.minLevel }

def shouldLog (s : Service) (level : Level) : Bool := level.rank ≤ s.minLevel.rank

/-- The events that the sink has received after one more was offered. -/
def log (s : Service) (received : List Event) (e : Event) : List Event :=
  if s.shouldLog e.level then received ++ [e] else received

end Service

/-- Printed lines, by channel. -/
structure Output where
  stdout : List String := []
  stderr : List String := []
deriving DecidableEq, Repr

namespace Output

def append (a b : Output) : Output := ⟨a.stdout ++ b.stdout, a.stderr ++ b.stderr⟩

/-- The lines of a text that is printed with a line break after it. -/
def lines (text : String) : List String := text.splitOn "\n"

end Output

namespace Sink

/-- The text printed for an event. -/
def text? (sink : Sink) (stamp : String) (e : Event) : Option String :=
  match sink with
  | .console true => some e.formatDetailed
  | .console false => some e.format
  | .structured => some (e.formatJson stamp)
  | .memory => none

/-- What is printed for an event; errors and warnings go to the error channel. -/
def print (sink : Sink) (stamp : String) (e : Event) : Output :=
  match sink.text? stamp e with
  | none => {}
  | some text =>
    match e.level with
    | .error | .warning => { stderr := Output.lines text }
    | _ => { stdout := Output.lines text }

end Sink

/-- Queries on the events that a memory sink has kept. -/
def Event.warnings (events : List Event) : List Event := events.filter (·.level == .warning)

def Event.withCode (code : Code) (events : List Event) : List Event :=
  events.filter (·.code == code)

/-- The events with a code whose context maps a key to a value. -/
def Event.find (code : Code) (key value : String) (events : List Event) : List Event :=
  events.filter fun e => e.code == code && e.context.get? key == some value

end SchemaLex

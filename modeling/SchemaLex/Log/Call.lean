import SchemaLex.Log.Event

/-! # Logging calls

A program logs by calls of five kinds. The kind of a call fixes its level, so a logger can refuse
the call before the event is made. -/

namespace SchemaLex

inductive Call where
  | error (code : Code) (message : String) (entries : List (String × String))
  | warning (code : Code) (message : String) (offset : Option Nat)
      (entries : List (String × String))
  | success (code : Code) (message : String) (entries : List (String × String))
  | info (message : String) (entries : List (String × String))
  | debug (message : String) (offset : Option Nat) (entries : List (String × String))
deriving DecidableEq, Repr

namespace Call

/-- The level that a logger is asked about. -/
def level : Call → Level
  | error .. => .error
  | warning .. => .warning
  | success .. => .info
  | info .. => .info
  | debug .. => .debug

def event : Call → Event
  | error code message entries => (Event.error code message).withEntries entries
  | warning code message offset entries =>
    Event.withEntries { Event.warning code message with offset := offset } entries
  | success code message entries => (Event.success code message).withEntries entries
  | info message entries => (Event.info message).withEntries entries
  | debug message offset entries =>
    Event.withEntries { Event.debug message with offset := offset } entries

end Call

end SchemaLex

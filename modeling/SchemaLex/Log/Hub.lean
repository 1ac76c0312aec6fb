import SchemaLex.Log.Call
import SchemaLex.Log.Service

/-! # The shared logger

A process has at most one logging service: the first one installed stays. Until then events go
nowhere. -/

namespace SchemaLex

structure Hub where
  service : Option Service := none
  /-- The events that the sink of the service has received, in order. -/
  received : List Event := []
deriving DecidableEq, Repr

namespace Hub

/-- A service is installed already. -/
inductive InstallError where
  | alreadyInstalled
deriving DecidableEq, Repr

namespace InstallError

def message : InstallError → String
  | .alreadyInstalled =>
    "[" ++ Code.initializationFailure.name ++ "] Global logger already initialized"

end InstallError

def isInitialized (h : Hub) : Bool := h.service.isSome

/-- Whether an event of a level would reach a sink. -/
def enabled (h : Hub) (level : Level) : Bool := h.service.any (·.shouldLog level)

def emit (h : Hub) (e : Event) : Hub :=
  match h.service with
  | none => h
  | some service => { h with received := service.log h.received e }

/-- The level of the call is tested here, and that of its event once more by the service. -/
def call (h : Hub) (c : Call) : Hub := if h.enabled c.level then h.emit c.event else h

def emitAll (h : Hub) (events : List Event) : Hub := events.foldl emit h

def install (h : Hub) (service : Service) : Except InstallError Hub :=
  match h.service with
  | none => .ok { h with service := some service }
  | some _ => .error .alreadyInstalled

/-- The call that announces a service made from preferences. -/
def announcement (preferences : LoggingPreferences) : Call :=
  .success .initializationCompleted "Global logging system initialized"
    [("min_level", preferences.minLevel.name), ("structured", flagName preferences.structured)]

/-- Installs a service made from preferences and announces it through that service. -/
def start (h : Hub) (preferences : LoggingPreferences) : Except InstallError Hub :=
  (h.install (.ofPreferences preferences)).map (·.call (announcement preferences))

/-- The line printed for an error that has no service to go to. -/
def fallback (code : Code) (message : String) : String :=
  "[ERROR] FALLBACK: [" ++ code.name ++ "] " ++ message

/-- Logs an error, or prints it when no service is installed. -/
def reportError (h : Hub) (code : Code) (message : String) : Hub × Output :=
  match h.service with
  | none => (h, { stderr := Output.lines (fallback code message) })
  | some _ => (h.emit (.error code message), {})

/-- The events that a memory sink has kept; any other sink keeps none. -/
def kept (h : Hub) : List Event :=
  match h.service with
  | some ⟨.memory, _⟩ => h.received
  | _ => []

/-- What the sink printed between two states of the logger, for events with the given timestamp. -/
def printed (before after : Hub) (stamp : String) : Output :=
  match after.service with
  | none => {}
  | some service =>
    (after.received.drop before.received.length).foldl
      (fun output e => output.append (service.sink.print stamp e)) {}

end Hub

end SchemaLex

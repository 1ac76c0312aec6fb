import SchemaLex.Json.Writer
import SchemaLex.Log.Code
import SchemaLex.Log.Context
import SchemaLex.Log.Level

/-! # Log events -/

namespace SchemaLex

structure Event where
  level : Level
  code : Code
  message : String
  /-- The byte of the scanned source to which the event refers. -/
  offset : Option Nat := none
  context : Context := {}
deriving DecidableEq, Repr

namespace Event

def error (code : Code) (message : String) : Event :=
  { level := .error, code := code, message := message }

def warning (code : Code) (message : String) : Event :=
  { level := .warning, code := code, message := message }

def success (code : Code) (message : String) : Event :=
  { level := .info, code := code, message := message }

def info (message : String) : Event :=
  { level := .info, code := .plainInfo, message := message }

def debug (message : String) : Event :=
  { level := .debug, code := .plainDebug, message := message }

def withOffset (e : Event) (offset : Nat) : Event := { e with offset := some offset }

def withContext (e : Event) (key value : String) : Event :=
  { e with context := e.context.insert key value }

/-- Adds entries in order; a later entry replaces an earlier one with the same key. -/
def withEntries (e : Event) (entries : List (String × String)) : Event :=
  entries.foldl (fun e (key, value) => e.withContext key value) e

def severity (e : Event) : Severity := e.code.severity

def category (e : Event) : String := e.code.category

/-- The event on one line, without its context. -/
def format (e : Event) : String :=
  "[" ++ e.level.name ++ "] " ++ e.code.name ++ " - " ++ e.message ++
    match e.offset with
    | none => ""
    | some offset => " at byte " ++ toString offset

/-- What the registry says of the code of an error or a warning. -/
def adviceLines (e : Event) : List String :=
  match e.level with
  | .error | .warning =>
    ["  Category: " ++ e.category, "  Severity: " ++ e.severity.name] ++
      match e.code.action? with
      | none => []
      | some action => ["  Recommended action: " ++ action]
  | _ => []

def contextLines (e : Event) : List String :=
  if e.context.isEmpty then []
  else "  Context:" :: e.context.entries.map fun (key, value) => "    " ++ key ++ ": " ++ value

/-- The event with the advice for its code and its context, a line for each entry. -/
def formatDetailed (e : Event) : String :=
  (e.adviceLines ++ e.contextLines).foldl (fun text line => text ++ "\n" ++ line) e.format

def contextJson (c : Context) : Json :=
  .object (c.entries.map fun (key, value) => (Json.encode key.toList, .ofString value))

/-- The members of the JSON form in increasing order of their keys. -/
def members (e : Event) (stamp : String) : List (String × Json) :=
  [("category", .ofString e.category), ("code", .ofString e.code.name)] ++
    (if e.context.isEmpty then [] else [("context", contextJson e.context)]) ++
    [("level", .ofString e.level.name), ("message", .ofString e.message)] ++
    (match e.offset with
      | none => []
      | some offset => [("offset", .ofInt offset)]) ++
    [("severity", .ofString e.severity.name), ("timestamp", .ofString stamp)]

def toJson (e : Event) (stamp : String) : Json :=
  .object ((e.members stamp).map fun (key, value) => (Json.encode key.toList, value))

/-- The event as one line of JSON with the given timestamp. -/
def formatJson (e : Event) (stamp : String) : String := (e.toJson stamp).text

end Event

end SchemaLex

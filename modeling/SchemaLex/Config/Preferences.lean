import SchemaLex.Log.Level
import SchemaLex.Scan.Strategy

/-! # Preferences -/

namespace SchemaLex

/-- What a scan does besides finding tokens. -/
structure LexicalPreferences where
  strategy : Strategy := .builder
  /-- Whether tokens are tallied by class. -/
  detailedMetrics : Bool := true
  /-- Whether the uses of each operator are counted. -/
  trackOperators : Bool := false
  /-- Whether every unknown token is logged. -/
  logUnknown : Bool := false
deriving DecidableEq, Repr

structure LoggingPreferences where
  /-- The least grave level that is logged. -/
  minLevel : Level := .info
  /-- Whether events are printed as lines of JSON. -/
  structured : Bool := false
  /-- Whether printed events show category, severity and context. -/
  detailed : Bool := false
deriving DecidableEq, Repr

/-- The spelling of a flag. -/
def flagName (b : Bool) : String := if b then "true" else "false"

structure Config where
  lexical : LexicalPreferences := {}
  logging : LoggingPreferences := {}
deriving DecidableEq, Repr

end SchemaLex

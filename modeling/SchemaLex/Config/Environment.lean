import SchemaLex.Config.Error
import SchemaLex.Config.Preferences

/-! # Preferences from the environment

Each preference has a variable of its own. A variable that is not set, is not UTF-8 or does not
parse leaves the fixed default in place. -/

namespace SchemaLex

/-- The variables that are set, with their values as bytes. -/
structure Environment where
  raw? : String → Option ByteArray

namespace Environment

def empty : Environment := ⟨fun _ => none⟩

/-- What the names of all variables begin with. -/
def namespaceName : String := "PROTO_LEXER_"

/-- The text of a variable, if it is set and valid UTF-8. -/
def get? (env : Environment) (name : String) : Option String :=
  (env.raw? (namespaceName ++ name)).bind String.fromUTF8?

/-- The two spellings of a flag. -/
def flagOf? (text : String) : Option Bool :=
  if text = "true" then some true
  else if text = "false" then some false
  else none

def flag (env : Environment) (name : String) (default : Bool) : Bool :=
  ((env.get? name).bind flagOf?).getD default

end Environment

namespace LexicalPreferences

def ofEnvironment (env : Environment) : LexicalPreferences :=
  { strategy := ((env.get? "LEXICAL_STRATEGY").bind Strategy.ofText?).getD .builder
    detailedMetrics := env.flag "LEXICAL_DETAILED_METRICS" true
    trackOperators := env.flag "LEXICAL_TRACK_OPERATORS" false
    logUnknown := env.flag "LEXICAL_LOG_UNKNOWN" false }

end LexicalPreferences

namespace LoggingPreferences

def ofEnvironment (env : Environment) : LoggingPreferences :=
  { minLevel := ((env.get? "LOGGING_MIN_LEVEL").bind Level.ofText?).getD .info
    structured := env.flag "LOGGING_USE_STRUCTURED" false
    detailed := env.flag "LOGGING_DETAILED" false }

end LoggingPreferences

namespace Config

def ofEnvironment (env : Environment) : Config :=
  { lexical := .ofEnvironment env
    logging := .ofEnvironment env }

end Config

end SchemaLex

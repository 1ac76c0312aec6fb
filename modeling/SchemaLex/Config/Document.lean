import SchemaLex.Config.Environment
import SchemaLex.Toml.Reader
import SchemaLex.Toml.Record

/-! # Configuration documents

A document may set any of the preferences in the records `lexical` and `logging`; what it does not
set comes from the environment. Other keys are ignored. -/

namespace SchemaLex

namespace Config

/-- The value of a key read by `f`, or a default if the key is absent. A present value that `f`
does not read is a fault. -/
def field? {α : Type} (key : String) (f : Toml → Option α) (default : α) (es : Toml.Entries) :
    Option α :=
  match es.lookup key with
  | none => some default
  | some item => f item

def strategyOf? (item : Toml) : Option Strategy := item.name?.bind Strategy.ofName?

def levelOf? (item : Toml) : Option Level := item.name?.bind Level.ofKey?

def flagOf? : Toml → Option Bool
  | .boolean b => some b
  | _ => none

/-- The keys of the lexical preferences in their fixed order. -/
def lexicalKeys : List String :=
  ["strategy", "collect_detailed_metrics", "track_operator_patterns", "log_unknown_tokens"]

/-- The keys of the logging preferences in their fixed order. -/
def loggingKeys : List String :=
  ["min_log_level", "use_structured_logging", "detailed_console_output"]

def lexicalOf? (default : LexicalPreferences) (item : Toml) : Option LexicalPreferences := do
  let es ← item.fields? lexicalKeys
  some {
    strategy := ← field? "strategy" strategyOf? default.strategy es
    detailedMetrics := ← field? "collect_detailed_metrics" flagOf? default.detailedMetrics es
    trackOperators := ← field? "track_operator_patterns" flagOf? default.trackOperators es
    logUnknown := ← field? "log_unknown_tokens" flagOf? default.logUnknown es }

def loggingOf? (default : LoggingPreferences) (item : Toml) : Option LoggingPreferences := do
  let es ← item.fields? loggingKeys
  some {
    minLevel := ← field? "min_log_level" levelOf? default.minLevel es
    structured := ← field? "use_structured_logging" flagOf? default.structured es
    detailed := ← field? "detailed_console_output" flagOf? default.detailed es }

/-- The configuration of a root table over defaults. -/
def ofTable? (default : Config) (root : Toml.Entries) : Option Config := do
  some {
    lexical := ← field? "lexical" (lexicalOf? default.lexical) default.lexical root
    logging := ← field? "logging" (loggingOf? default.logging) default.logging root }

/-- Reads a document; absent keys take their values from the environment. -/
def parse (env : Environment) (document : String) : Except ConfigError Config :=
  match (Toml.parse? document).bind (ofTable? (ofEnvironment env)) with
  | some config => .ok config
  | none => .error .parse

/-- The configuration as a document that sets every preference. -/
def render (c : Config) : String :=
  "[lexical]\n" ++
    "strategy = \"" ++ c.lexical.strategy.name ++ "\"\n" ++
    "collect_detailed_metrics = " ++ flagName c.lexical.detailedMetrics ++ "\n" ++
    "track_operator_patterns = " ++ flagName c.lexical.trackOperators ++ "\n" ++
    "log_unknown_tokens = " ++ flagName c.lexical.logUnknown ++ "\n" ++
    "\n[logging]\n" ++
    "min_log_level = \"" ++ c.logging.minLevel.key ++ "\"\n" ++
    "use_structured_logging = " ++ flagName c.logging.structured ++ "\n" ++
    "detailed_console_output = " ++ flagName c.logging.detailed ++ "\n"

end Config

end SchemaLex

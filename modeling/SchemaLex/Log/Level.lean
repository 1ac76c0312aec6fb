import SchemaLex.Text.Trim

/-! # Log levels -/

namespace SchemaLex

inductive Level where
  | error | warning | info | debug
deriving DecidableEq, Repr

namespace Level

/-- The rank of a level, from zero for the gravest. -/
def rank : Level → Nat
  | .error => 0
  | .warning => 1
  | .info => 2
  | .debug => 3

/-- The name that events show. -/
def name : Level → String
  | .error => "ERROR"
  | .warning => "WARN"
  | .info => "INFO"
  | .debug => "DEBUG"

/-- The name that configuration documents use. -/
def key : Level → String
  | .error => "error"
  | .warning => "warning"
  | .info => "info"
  | .debug => "debug"

def all : List Level := [.error, .warning, .info, .debug]

/-- The level with exactly this configuration name. -/
def ofKey? (key : String) : Option Level := all.find? (·.key == key)

/-- The spellings of levels in the environment. -/
def spellings : List (String × Level) :=
  [("error", .error), ("0", .error), ("warning", .warning), ("warn", .warning), ("1", .warning),
    ("info", .info), ("2", .info), ("debug", .debug), ("3", .debug)]

/-- The level that a text spells in any letter case. Only `A` to `Z` have a lower-case form among
the letters of the spellings, so no other letter needs folding. -/
def ofText? (text : String) : Option Level :=
  spellings.lookup (String.ofList (Text.lower text.toList))

end Level

end SchemaLex

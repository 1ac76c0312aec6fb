import SchemaLex.Log.Code
import SchemaLex.Scan.Strategy

/-! # Configuration errors -/

namespace SchemaLex

/-- Why a configuration file could not be read. -/
inductive FileFault where
  | notFound
  | isDirectory
  | notDirectory
  | invalidUtf8
deriving DecidableEq, Repr

namespace FileFault

def reason : FileFault → String
  | .notFound => "No such file or directory (os error 2)"
  | .isDirectory => "Is a directory (os error 21)"
  | .notDirectory => "Not a directory (os error 20)"
  | .invalidUtf8 => "stream did not contain valid UTF-8"

end FileFault

inductive ConfigError where
  /-- The document is not TOML, or a known key has a value it cannot have. -/
  | parse
  | io (path : String) (fault : FileFault)
  | invalidValue (key value : String)
deriving DecidableEq, Repr

namespace ConfigError

def code : ConfigError → Code
  | .parse => .configParseError
  | .io _ _ => .configIoError
  | .invalidValue _ _ => .invalidConfigValue

def message : ConfigError → String
  | .parse => "Invalid configuration document"
  | .io path fault => "Failed to read configuration file '" ++ path ++ "': " ++ fault.reason
  | .invalidValue key value => "Invalid value '" ++ value ++ "' for '" ++ key ++ "'"

end ConfigError

/-- The strategy that a text names. The error quotes the text as it is. -/
def Strategy.parse (text : String) : Except ConfigError Strategy :=
  match Strategy.ofText? text with
  | some strategy => .ok strategy
  | none => .error (.invalidValue "strategy" text)

end SchemaLex

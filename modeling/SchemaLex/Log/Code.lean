/-! # Event codes

Every event carries a code. Codes of faults are registered with a description, a severity and
advice; all other codes fall back to neutral answers. -/

namespace SchemaLex

structure Code where
  name : String
deriving DecidableEq, Repr

inductive Severity where
  | critical | high | medium | low
deriving DecidableEq, Repr

namespace Severity

def name : Severity → String
  | .critical => "Critical"
  | .high => "High"
  | .medium => "Medium"
  | .low => "Low"

/-- The rank of a severity, from zero for the gravest. -/
def rank : Severity → Nat
  | .critical => 0
  | .high => 1
  | .medium => 2
  | .low => 3

end Severity

namespace Code

def internalError : Code := ⟨"ERR001"⟩
def initializationFailure : Code := ⟨"ERR002"⟩

def configParseError : Code := ⟨"E010"⟩
def configIoError : Code := ⟨"E011"⟩
def invalidConfigValue : Code := ⟨"E012"⟩

def unknownToken : Code := ⟨"W020"⟩
def unterminatedComment : Code := ⟨"W021"⟩
def malformedNumber : Code := ⟨"W022"⟩

def unexpectedToken : Code := ⟨"E040"⟩
def unexpectedEnd : Code := ⟨"E041"⟩
def valueTypeMismatch : Code := ⟨"E042"⟩

def initializationCompleted : Code := ⟨"I004"⟩
def configLoaded : Code := ⟨"I010"⟩
def scanComplete : Code := ⟨"I020"⟩

/-- Codes of events that are given none of their own. -/
def plainWarning : Code := ⟨"W000"⟩
def plainInfo : Code := ⟨"I000"⟩
def plainDebug : Code := ⟨"D000"⟩

/-- What is registered about a code. -/
structure Metadata where
  code : Code
  category : String
  severity : Severity
  recoverable : Bool
  description : String
  action : String
deriving DecidableEq, Repr

def registry : List Metadata :=
  [⟨internalError, "System", .critical, false,
      "Critical internal error",
      "File a bug report with the offending input"⟩,
    ⟨initializationFailure, "System", .critical, false,
      "Logging system initialization failure",
      "Initialize logging exactly once per process"⟩,
    ⟨configParseError, "Configuration", .medium, true,
      "Configuration document is not valid TOML for this schema",
      "Fix the reported key or remove it to use the default"⟩,
    ⟨configIoError, "Configuration", .medium, true,
      "Configuration file could not be read",
      "Check the path and file permissions"⟩,
    ⟨invalidConfigValue, "Configuration", .low, true,
      "Configuration value is outside the accepted set",
      "Use one of the documented values"⟩,
    ⟨unknownToken, "Lexical", .low, true,
      "Source fragment matched no token in the vocabulary",
      "Check for unsupported syntax or stray characters"⟩,
    ⟨unterminatedComment, "Lexical", .medium, true,
      "Block comment was not closed before end of input",
      "Add the missing */ terminator"⟩,
    ⟨malformedNumber, "Lexical", .low, true,
      "Numeric literal could not be converted to a value",
      "Check for repeated decimal points, empty hex prefixes or overflow"⟩,
    ⟨unexpectedToken, "TokenStream", .medium, true,
      "Token stream yielded a different token than expected",
      "Check the source around the reported token"⟩,
    ⟨unexpectedEnd, "TokenStream", .medium, true,
      "Token stream ended while a token was still expected",
      "Check the source for a truncated declaration"⟩,
    ⟨valueTypeMismatch, "TokenStream", .low, true,
      "Token value accessed as the wrong variant",
      "Match on the token kind before reading its value"⟩]

def metadata? (code : Code) : Option Metadata := registry.find? (·.code == code)

def severity (code : Code) : Severity := (code.metadata?.map (·.severity)).getD .medium

def isRecoverable (code : Code) : Bool := (code.metadata?.map (·.recoverable)).getD true

def description (code : Code) : String :=
  (code.metadata?.map (·.description)).getD "Unknown error"

/-- The recommended action, if the code is registered. -/
def action? (code : Code) : Option String := code.metadata?.map (·.action)

def action (code : Code) : String := code.action?.getD "No specific action available"

def category (code : Code) : String := (code.metadata?.map (·.category)).getD "Unknown"

/-- The codes that a scan can report. -/
def lexical : List Code := [unknownToken, unterminatedComment, malformedNumber]

/-- Whether every code that a scan can report is registered. -/
def lexicalRegistered : Bool := lexical.all (·.metadata?.isSome)

end Code

end SchemaLex

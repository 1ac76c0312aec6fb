import SchemaLex.Text.Trim

/-! # Scan strategies -/

namespace SchemaLex

/-- How words and symbols become tokens: by character class, or by the context of a word. -/
inductive Strategy where
  | builder
  | contextual
deriving DecidableEq, Repr

namespace Strategy

def name : Strategy → String
  | .builder => "builder"
  | .contextual => "contextual"

def all : List Strategy := [.builder, .contextual]

/-- The strategy with exactly this name. -/
def ofName? (name : String) : Option Strategy := all.find? (·.name == name)

/-- The strategy that a text names, white space around it and the letter case ignored. -/
def ofText? (text : String) : Option Strategy :=
  ofName? (String.ofList (Text.lower (Text.trim text.toList)))

end Strategy

end SchemaLex

import SchemaLex.Json.Number
import SchemaLex.Json.Reader
import SchemaLex.Json.Writer
import SchemaLex.Token.Basic

/-! # The JSON form of tokens

A token is an object with the members `kind` and `value`. On reading, other members are ignored
and the pair of the two may also stand in an array. -/

namespace SchemaLex

namespace Value

def toJson : Value → Json
  | .integer n => .ofInt n.toInt
  | .float x => .ofBinary64 x
  | .text s => .ofString s

/-- The first sort of value that a JSON value can be read as: integer, float, text. -/
def ofJson? : Json → Option Value
  | .number numeral =>
    match numeral.toInt64? with
    | some n => some (.integer n)
    | none => numeral.toBinary64?.map .float
  | .string units => (Json.decode units).map fun cs => .text (String.ofList cs)
  | _ => none

end Value

namespace Kind

def toJson (kind : Kind) : Json := .ofString kind.name

def ofUnits? (units : List Json.Unit) : Option Kind :=
  (Json.decode units).bind fun cs => ofName? (String.ofList cs)

/-- A kind is read from its name, or from an object with the name as its one key and null as its
value. -/
def ofJson? : Json → Option Kind
  | .string units => ofUnits? units
  | .object [(key, .null)] => ofUnits? key
  | _ => none

end Kind

namespace Token

def toJson (token : Token) : Json :=
  .object [(Json.encode "kind".toList, token.kind.toJson),
    (Json.encode "value".toList, token.value.toJson)]

/-- The members with their keys as texts; a key that is no text makes the object unreadable. -/
def decodeKeys? : List (List Json.Unit × Json) → Option (List (List Char × Json))
  | [] => some []
  | (key, value) :: rest => do
    let key ← Json.decode key
    let rest ← decodeKeys? rest
    some ((key, value) :: rest)

/-- The value of the only member with a key. -/
def single? (key : String) (members : List (List Char × Json)) : Option Json :=
  match members.filter (fun m => m.1 == key.toList) with
  | [(_, value)] => some value
  | _ => none

def ofPair? (kind value : Json) : Option Token := do
  some ⟨← Kind.ofJson? kind, ← Value.ofJson? value⟩

def ofJson? : Json → Option Token
  | .object members => do
    let members ← decodeKeys? members
    ofPair? (← single? "kind" members) (← single? "value" members)
  | .array [kind, value] => ofPair? kind value
  | _ => none

/-- The JSON text of a token. -/
def render (token : Token) : String := token.toJson.text

/-- The JSON text of a list of tokens. -/
def renderAll (tokens : List Token) : String := (Json.array (tokens.map toJson)).text

/-- The token that a JSON text writes. -/
def parse? (text : String) : Option Token := (Json.parse? text).bind ofJson?

def listOfJson? : Json → Option (List Token)
  | .array items => items.mapM ofJson?
  | _ => none

/-- The tokens that the JSON text of a list writes. -/
def parseAll? (text : String) : Option (List Token) := (Json.parse? text).bind listOfJson?

end Token

end SchemaLex

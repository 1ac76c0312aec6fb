import SchemaLex.Binary64.Layout
import SchemaLex.Log.Code
import SchemaLex.Text.Quoted
import SchemaLex.Token.Kind

/-! # Tokens -/

namespace SchemaLex

/-- What a token carries. -/
inductive Value where
  | integer (n : Int64)
  | float (x : Binary64)
  | text (s : String)
deriving DecidableEq, Repr

namespace Value

/-- The sort of value, as error messages name it. -/
def sort : Value → String
  | .integer _ => "an integer"
  | .float _ => "a float"
  | .text _ => "text"

def display : Value → String
  | .integer n => toString n.toInt
  | .float x => x.display
  | .text s => s

/-- Equality of values, numbers compared numerically and never across the two sorts of number. -/
def equals : Value → Value → Bool
  | .integer m, .integer n => m == n
  | .float x, .float y => x.equals y
  | .text s, .text t => s == t
  | _, _ => false

end Value

structure Token where
  kind : Kind
  value : Value
deriving DecidableEq, Repr

namespace Token

/-- A token that carries source text. -/
def text (kind : Kind) (cs : List Char) : Token := ⟨kind, .text (String.ofList cs)⟩

def integer (n : Int64) : Token := ⟨.number .integer, .integer n⟩

def float (x : Binary64) : Token := ⟨.number .float, .float x⟩

@[simp] theorem kind_text (kind : Kind) (cs : List Char) : (text kind cs).kind = kind := rfl

def is (token : Token) (kind : Kind) : Bool := token.kind == kind

def equals (a b : Token) : Bool := a.kind == b.kind && a.value.equals b.value

/-- A value was asked for as a sort that it is not. -/
structure Mismatch where
  kind : Kind
  expected : String
  found : String
deriving DecidableEq, Repr

namespace Mismatch

def code (_ : Mismatch) : Code := .valueTypeMismatch

def message (e : Mismatch) : String :=
  "Token '" ++ e.kind.name ++ "' carries " ++ e.found ++ ", not " ++ e.expected

end Mismatch

def mismatch (token : Token) (expected : String) : Mismatch :=
  ⟨token.kind, expected, token.value.sort⟩

def text? (token : Token) : Option String :=
  match token.value with
  | .text s => some s
  | _ => none

def asText (token : Token) : Except Mismatch String :=
  match token.value with
  | .text s => .ok s
  | _ => .error (token.mismatch "text")

def asInteger (token : Token) : Except Mismatch Int64 :=
  match token.value with
  | .integer n => .ok n
  | _ => .error (token.mismatch "an integer")

def asFloat (token : Token) : Except Mismatch Binary64 :=
  match token.value with
  | .float x => .ok x
  | _ => .error (token.mismatch "a float")

/-- The kind with the value in parentheses, text in quotes. -/
def display (token : Token) : String :=
  let value := match token.value with
    | .text s => Text.quoted s
    | value => value.display
  token.kind.name ++ "(" ++ value ++ ")"

end Token

end SchemaLex

import SchemaLex.Toml.Basic

/-! # Records and choices

What a reader of records finds in items. A record is commonly a table, but its fields may also stand
in an array, in a fixed order. A choice is commonly a text. -/

namespace SchemaLex.Toml

/-- The fields of a record. A table has them under their keys and an array in the order of `keys`;
a time is taken for a record without fields. -/
def fields? (keys : List String) : Toml → Option Entries
  | .table _ es => some es
  | .array items => some (keys.zip items)
  | .tables elements => some (keys.zip (elements.map (.table .header)))
  | .datetime _ => some []
  | _ => none

/-- Whether an item is a table or an array with nothing in it. -/
def isHollow : Toml → Bool
  | .array items => items.isEmpty
  | .table _ es => es.isEmpty
  | .tables elements => elements.isEmpty
  | _ => false

/-- The name of a choice: a text, or the one key of a table with nothing under it. -/
def name? : Toml → Option String
  | .string text => some text
  | .table _ [(name, item)] => if item.isHollow then some name else none
  | _ => none

end SchemaLex.Toml

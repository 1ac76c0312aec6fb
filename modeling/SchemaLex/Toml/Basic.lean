import SchemaLex.Binary64.Basic

/-! # TOML tables

A document is a list of key-value pairs, followed by sections that each open a table and fill it
with pairs. Whether a table may be filled further depends on how it came into being. -/

namespace SchemaLex

/-- How a table came into being. -/
inductive Toml.Origin where
  /-- By a header of its own. -/
  | header
  /-- As part of the path in the header of another table. -/
  | implicit
  /-- As part of a dotted key. -/
  | dotted
  /-- Written as a value; such a table is complete. -/
  | inline
deriving DecidableEq, Repr

inductive Toml where
  | string (text : String)
  | integer (n : Int64)
  | float (x : Binary64)
  | boolean (b : Bool)
  | datetime (text : String)
  | array (items : List Toml)
  | table (origin : Toml.Origin) (entries : List (String × Toml))
  /-- The tables opened by repeated headers of an array of tables. -/
  | tables (elements : List (List (String × Toml)))
deriving Repr

namespace Toml

abbrev Entries := List (String × Toml)

namespace Entries

/-- Gives a key an item, in place of the one it has. -/
def set (key : String) (item : Toml) : Entries → Entries
  | [] => [(key, item)]
  | (k, i) :: rest => if k = key then (k, item) :: rest else (k, i) :: set key item rest

/-- The list with its last element replaced. -/
def setLast (new : Entries) (elements : List Entries) : List Entries := elements.dropLast ++ [new]

/-- Adds a pair with a dotted key, the last part of which is `key`. A key is given once. A dotted
key may pass through a table that a header has only mentioned, but it may not add directly to
it. -/
def assign? (key : String) (item : Toml) : List String → Entries → Option Entries
  | [], es => if (es.lookup key).isSome then none else some (es ++ [(key, item)])
  | part :: path, es =>
    match es.lookup part with
    | none => do
      let inner ← assign? key item path []
      some (es ++ [(part, .table .dotted inner)])
    | some (.table .dotted inner) => do
      let inner ← assign? key item path inner
      some (set part (.table .dotted inner) es)
    | some (.table .implicit inner) =>
      if path.isEmpty then none
      else do
        let inner ← assign? key item path inner
        some (set part (.table .implicit inner) es)
    | some (.tables elements) =>
      match elements.getLast? with
      | none => none
      | some inner =>
        if path.isEmpty then none
        else do
          let inner ← assign? key item path inner
          some (set part (.tables (setLast inner elements)) es)
    | some _ => none

/-- Replaces the item of `key` in the table at a header's path. Tables missing on the way are
made; an array of tables stands for its last element. -/
def update? (key : String) (f : Option Toml → Option Toml) : List String → Entries → Option Entries
  | [], es => do
    let item ← f (es.lookup key)
    some (set key item es)
  | part :: path, es =>
    match es.lookup part with
    | none => do
      let inner ← update? key f path []
      some (set part (.table .implicit inner) es)
    | some (.table .inline _) => none
    | some (.table origin inner) => do
      let inner ← update? key f path inner
      some (set part (.table origin inner) es)
    | some (.tables elements) =>
      match elements.getLast? with
      | none => none
      | some inner => do
        let inner ← update? key f path inner
        some (set part (.tables (setLast inner elements)) es)
    | some _ => none

end Entries

/-- A key-value pair; the last part of its dotted key is apart from the others. -/
structure Pair where
  path : List String
  key : String
  item : Toml
deriving Repr

namespace Entries

def assignAll? (pairs : List Pair) (es : Entries) : Option Entries :=
  pairs.foldlM (fun es pair => assign? pair.key pair.item pair.path es) es

end Entries

/-- A header with the pairs under it. -/
structure Section where
  /-- Whether the header opens one more element of an array of tables. -/
  element : Bool
  path : List String
  key : String
  pairs : List Pair
deriving Repr

namespace Section

/-- The table of a section, built on what its key holds so far. -/
def open? (s : Section) : Option Toml → Option Toml
  | none => do
    let inner ← Entries.assignAll? s.pairs []
    some (if s.element then .tables [inner] else .table .header inner)
  | some (.table .implicit inner) =>
    if s.element then none
    else (Entries.assignAll? s.pairs inner).map (.table .header)
  | some (.tables elements) =>
    if s.element then
      (Entries.assignAll? s.pairs []).map fun inner => .tables (elements ++ [inner])
    else none
  | some _ => none

end Section

structure Document where
  pairs : List Pair
  sections : List Section
deriving Repr

namespace Document

/-- The root table of a document, if no table or key is defined twice. -/
def root? (d : Document) : Option Entries := do
  let root ← Entries.assignAll? d.pairs []
  d.sections.foldlM (fun root s => Entries.update? s.key s.open? s.path root) root

end Document

end Toml

end SchemaLex

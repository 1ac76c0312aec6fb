import SchemaLex.Config.Document
import SchemaLex.Log.Event

/-! # Configuration files -/

namespace SchemaLex

/-- A file with its bytes, or a directory. -/
inductive FileNode where
  | file (bytes : ByteArray)
  | directory

/-- The files and directories below a working directory, by the parts of their paths. -/
structure FileTree where
  nodes : List (List String × FileNode)

namespace FileTree

/-- The node at a path. A directory is there also when only something below it is named. -/
def node? (tree : FileTree) (path : List String) : Option FileNode :=
  if path.isEmpty then some .directory
  else match tree.nodes.lookup path with
    | some node => some node
    | none => if tree.nodes.any fun (p, _) => path.isPrefixOf p then some .directory else none

/-- The directories outside the tree, of which nothing is known. -/
def outside : FileTree := ⟨[]⟩

/-- The node that the parts of a path lead to from `here`. Empty parts and points stay where they
are, two points go back, and every part must be followed from a directory. -/
def follow : List String → FileTree → List String → Except FileFault FileNode
  | [], tree, here =>
    match tree.node? here with
    | some node => .ok node
    | none => .error .notFound
  | part :: rest, tree, here =>
    match tree.node? here with
    | none => .error .notFound
    | some (.file _) => .error .notDirectory
    | some .directory =>
      if part = "" ∨ part = "." then follow rest tree here
      else if part = ".." then
        if here.isEmpty then follow rest outside [] else follow rest tree here.dropLast
      else follow rest tree (here ++ [part])

/-- The node at a path; a path that starts with a slash leaves the tree. -/
def resolve (tree : FileTree) (path : String) : Except FileFault FileNode :=
  match path.splitOn "/" with
  | [""] => .error .notFound
  | "" :: rest => follow rest outside []
  | parts => follow parts tree []

/-- The bytes of the file at a path. -/
def read (tree : FileTree) (path : String) : Except FileFault ByteArray :=
  match tree.resolve path with
  | .error fault => .error fault
  | .ok .directory => .error .isDirectory
  | .ok (.file bytes) => .ok bytes

end FileTree

namespace Config

/-- The event for a configuration that was loaded. -/
def loaded (path : String) (c : Config) : Event :=
  (Event.success .configLoaded "Runtime configuration loaded").withEntries
    [("path", path), ("strategy", c.lexical.strategy.name)]

/-- Loads the configuration file at a path; with the configuration comes the event that is
logged. -/
def load (env : Environment) (tree : FileTree) (path : String) :
    Except ConfigError (Config × Event) :=
  match tree.read path with
  | .error fault => .error (.io path fault)
  | .ok bytes =>
    match String.fromUTF8? bytes with
    | none => .error (.io path .invalidUtf8)
    | some document => do
      let config ← parse env document
      .ok (config, loaded path config)

end Config

end SchemaLex

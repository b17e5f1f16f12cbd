import Tabula.Entries
import Tabula.File.Fault
import Tabula.File.Path
import Tabula.Sheet.Book

/-!
# File trees

The files and directories that a program sees, with the directory it works in. A location
lists the names on the way to a node, the innermost first, so the root is the empty list
and the parent of a location is its tail. Paths are walked step by step: every step starts
in a directory, two dots lead to the parent, and the parent of the root is the root. What
a path itself forbids is found before the first step, and a part that is too long only when
the walk comes to it.
-/

namespace Tabula.File

/-- The names on the way from the root to a node, innermost first. -/
abbrev Location :=
  List String

/-- What a file holds: bytes, or a readable workbook file of some size with its worksheets. -/
inductive Content where
  | bytes (data : ByteArray)
  | workbook (size : Nat) (sheets : List Sheet.Worksheet)

/-- The content of a file that holds a text. -/
def Content.ofText (text : String) : Content :=
  .bytes text.toUTF8

instance : DecidableEq Content
  | .bytes left, .bytes right =>
      if same : left.data = right.data then
        isTrue (congrArg Content.bytes (ByteArray.ext same))
      else
        isFalse fun equal => same (congrArg ByteArray.data (Content.bytes.inj equal))
  | .workbook size left, .workbook otherSize right =>
      if same : size = otherSize ∧ left = right then
        isTrue (congr (congrArg Content.workbook same.1) same.2)
      else
        isFalse fun equal => same (Content.workbook.inj equal)
  | .bytes _, .workbook _ _ | .workbook _ _, .bytes _ => isFalse fun equal => by cases equal

/-- The number of bytes of a content. -/
def Content.size : Content → Nat
  | bytes data => data.size
  | workbook size _ => size

/-- A directory, with the size that the file system gives it, or a file. -/
inductive Node where
  | directory (size : Nat)
  | file (content : Content)
deriving DecidableEq

namespace Node

/-- An empty directory takes up one block. -/
def emptyDirectory : Node :=
  .directory 4096

/-- The size of a node in bytes. -/
def size : Node → Nat
  | directory size => size
  | file content => content.size

end Node

/-- The nodes of a file system below its root, and the directory that relative paths start
in. -/
structure Tree where
  workingDirectory : Location := []
  nodes : Entries Location Node := []
deriving DecidableEq

namespace Tree

/-- The node at a location. The root is always a directory. -/
def node? (tree : Tree) (location : Location) : Option Node :=
  if location = [] then some .emptyDirectory else Entries.get? tree.nodes location

/-- Makes a node the node at a location. -/
def put (tree : Tree) (location : Location) (node : Node) : Tree :=
  { tree with nodes := Entries.put tree.nodes location node }

/-- Checks that a location is a directory. -/
def enter (tree : Tree) (location : Location) : Except Fault Unit :=
  match tree.node? location with
  | none => .error .notFound
  | some (.file _) => .error .notDirectory
  | some (.directory _) => .ok ()

/-- The location one part further. -/
def next (location : Location) (part : String) : Location :=
  if part = ".." then location.tail
  else if Path.isStep part then part :: location
  else location

/-- Checks a path before any step is taken. -/
def checkPath (path : String) : Except Fault Unit :=
  if '\x00' ∈ path.toList then .error .nulInPath
  else if path = "" then .error .notFound
  else if Path.maxSize < path.utf8ByteSize then .error .nameTooLong
  else .ok ()

/-- Checks the size of a part of a path. -/
def checkPart (part : String) : Except Fault Unit :=
  if Path.maxPartSize < part.utf8ByteSize then .error .nameTooLong else .ok ()

/-- Takes one part of a path. The part has to start in a directory. -/
def step (tree : Tree) (location : Location) (part : String) : Except Fault Location :=
  match tree.enter location with
  | .error fault => .error fault
  | .ok () =>
      match checkPart part with
      | .error fault => .error fault
      | .ok () => .ok (next location part)

/-- Walks the parts of a path. The location arrived at need not exist. -/
def walk (tree : Tree) : Location → List String → Except Fault Location
  | location, [] => .ok location
  | location, part :: rest =>
      match tree.step location part with
      | .error fault => .error fault
      | .ok further => walk tree further rest

/-- The location that a path starts from. -/
def start (tree : Tree) (path : String) : Location :=
  if Path.isAbsolute path then [] else tree.workingDirectory

/-- The node that a path leads to. -/
def find (tree : Tree) (path : String) : Except Fault Node :=
  match checkPath path with
  | .error fault => .error fault
  | .ok () =>
      match tree.walk (tree.start path) (Path.parts path) with
      | .error fault => .error fault
      | .ok location =>
          match tree.node? location with
          | some node => .ok node
          | none => .error .notFound

/-- Whether a path leads to a directory. -/
def isDirectory (tree : Tree) (path : String) : Bool :=
  match tree.find path with
  | .ok (.directory _) => true
  | _ => false

/-- The location of the last part of a path, after a walk to the directory that holds it;
`none` when the last part names no step into it. -/
def target (tree : Tree) (path : String) (parts : List String) :
    Except Fault (Option Location) :=
  match tree.walk (tree.start path) parts.dropLast with
  | .error fault => .error fault
  | .ok directory =>
      let name := parts.getLast?.getD ""
      match tree.step directory name with
      | .error fault => .error fault
      | .ok _ => .ok (if Path.isStep name && name ≠ ".." then some (name :: directory) else none)

/-- Makes the directory that a path names. Slashes at the end of the path do not matter. -/
def makeDirectory (tree : Tree) (path : String) : Except Fault Tree :=
  match checkPath path with
  | .error fault => .error fault
  | .ok () =>
      let parts := ((Path.parts path).reverse.dropWhile (· = "")).reverse
      match tree.target path parts with
      | .error fault => .error fault
      | .ok none => .error .alreadyExists
      | .ok (some location) =>
          match tree.node? location with
          | some _ => .error .alreadyExists
          | none => .ok (tree.put location .emptyDirectory)

/-- Makes a directory, unless the path leads to one already. -/
def ensureDirectory (tree : Tree) (path : String) : Tree × Except Fault Unit :=
  match tree.makeDirectory path with
  | .ok made => (made, .ok ())
  | .error fault => (tree, if tree.isDirectory path then .ok () else .error fault)

/-- Makes the directories on the way of the given steps below `path`, outermost first, as
far as they are missing. Stops at the first failure and keeps what was made. -/
def ensureAll (tree : Tree) : List String → Tree × Except Fault Unit
  | [] => (tree, .ok ())
  | path :: rest =>
      match tree.ensureDirectory path with
      | (made, .error fault) => (made, .error fault)
      | (made, .ok ()) => ensureAll made rest

/-- The paths of the directories around the last step of a path, outermost first. -/
def ancestors (path : String) : List String :=
  let steps := Path.steps path
  (List.range (steps.length - 1)).map fun n =>
    (if Path.isAbsolute path then "/" else "") ++ "/".intercalate (steps.take (n + 1))

/-- Makes the directory that a path names, and those around it as far as they are missing.
They are made only if the path fails because of them. -/
def makeDirectories (tree : Tree) (path : String) : Tree × Except Fault Unit :=
  if path = "" then
    (tree, .ok ())
  else
    match tree.ensureDirectory path with
    | (unchanged, .error .notFound) =>
        match unchanged.ensureAll (ancestors path) with
        | (made, .error fault) => (made, .error fault)
        | (made, .ok ()) => made.ensureDirectory path
    | outcome => outcome

/-- Writes a file: a new one, or over the content of an old one. -/
def writeFile (tree : Tree) (path : String) (content : Content) : Except Fault Tree :=
  match checkPath path with
  | .error fault => .error fault
  | .ok () =>
      match tree.target path (Path.parts path) with
      | .error fault => .error fault
      | .ok none => .error .isDirectory
      | .ok (some location) =>
          match tree.node? location with
          | some (.directory _) => .error .isDirectory
          | _ => .ok (tree.put location (.file content))

/-- The path of a location from a directory around it; `none` when it is not below that
directory. -/
def relative? (directory location : Location) : Option String :=
  match directory.reverse.isPrefixOf? location.reverse with
  | some (name :: rest) => some ("/".intercalate (name :: rest))
  | _ => none

/-- The nodes below the working directory by their relative paths. -/
def listing (tree : Tree) : List (String × Node) :=
  tree.nodes.filterMap fun entry =>
    (relative? tree.workingDirectory entry.1).map fun path => (path, entry.2)

end Tree

end Tabula.File

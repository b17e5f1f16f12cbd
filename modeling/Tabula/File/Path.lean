import Tabula.Text.Split

/-!
# Paths

A path is a text whose parts are separated by slashes; one that starts with a slash is
absolute. Empty parts and single dots name no step, and two dots name the step to the
parent. Paths and their parts are limited in size, which is counted in bytes. The name of a
file is the last step of its path, and the name splits at its last dot into a stem and an
extension, unless that dot is its first character.
-/

namespace Tabula.File.Path

/-- The greatest size of a path. -/
def maxSize : Nat := 4095

/-- The greatest size of a part of a path. -/
def maxPartSize : Nat := 255

/-- The parts of a path between its slashes. -/
def parts (path : String) : List String :=
  (path.toList.splitOn '/').map String.ofList

/-- Whether a path starts at the root. -/
def isAbsolute (path : String) : Bool :=
  path.toList.head? = some '/'

/-- Whether a part of a path names a step. -/
def isStep (part : String) : Bool :=
  part ≠ "" && part ≠ "."

/-- The steps of a path. -/
def steps (path : String) : List String :=
  (parts path).filter isStep

/-- The name of the file that a path leads to; `none` when it leads to a parent or nowhere
beyond its start. -/
def fileName? (path : String) : Option String :=
  match (steps path).getLast? with
  | some name => if name = ".." then none else some name
  | none => none

/-- The parts of a file name before and after its last dot. A name without a dot other
than its first character is all stem. -/
def splitName (name : String) : String × Option String :=
  match Text.cut? '.' name.toList.reverse with
  | some (extension, stem) =>
      if stem = [] then
        (name, none)
      else
        (String.ofList stem.reverse, some (String.ofList extension.reverse))
  | none => (name, none)

/-- The name of a file without its extension; empty for a path without a file name. -/
def stem (path : String) : String :=
  match fileName? path with
  | some name => (splitName name).1
  | none => ""

/-- The extension of a file; empty when there is none. -/
def extension (path : String) : String :=
  match fileName? path with
  | some name => (splitName name).2.getD ""
  | none => ""

/-- The path of a name inside a directory. An absolute name stands alone, and an empty
directory or one that ends in a slash takes no further slash. -/
def join (directory name : String) : String :=
  if isAbsolute name then
    name
  else if directory = "" ∨ directory.toList.getLast? = some '/' then
    directory ++ name
  else
    directory ++ "/" ++ name

end Tabula.File.Path

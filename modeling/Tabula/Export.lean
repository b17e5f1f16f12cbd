import Tabula.Emission
import Tabula.File.Tree
import Tabula.Value.Printing

/-!
# Exporting artifacts

Artifacts are written to one directory, one file each, in order. The directory is made
when it is missing, files that exist are written over, and the first failure ends the
export; what was written before it stays.
-/

namespace Tabula.Export

/-- How artifacts become files. -/
structure Form where
  /-- The start of every file name. -/
  nameHead : String := ""
  style : Value.Style := .compact
deriving DecidableEq, Repr

/-- The name of the file for an artifact. -/
def Form.fileName (form : Form) (artifact : String) : String :=
  form.nameHead ++ artifact ++ ".json"

/-- A path that could not be written. -/
structure Fault where
  path : String
  reason : File.Fault
deriving DecidableEq, Repr

/-- The wording of a fault. -/
def Fault.message (fault : Fault) : String :=
  s!"Failed to write '{fault.path}': {fault.reason.message}"

/-- The path of the file for an artifact. -/
def filePath (directory : String) (form : Form) (artifact : Artifact) : String :=
  File.Path.join directory (form.fileName artifact.name)

/-- Writes artifacts into an existing directory; the paths in order. -/
def writeFiles (directory : String) (form : Form) :
    List Artifact → File.Tree → File.Tree × Except Fault (List String)
  | [], tree => (tree, .ok [])
  | artifact :: rest, tree =>
      let path := filePath directory form artifact
      match tree.writeFile path (.ofText (artifact.document.print form.style)) with
      | .error reason => (tree, .error ⟨path, reason⟩)
      | .ok written =>
          let (final, paths) := writeFiles directory form rest written
          (final, paths.map (path :: ·))

/-- Makes the directory and writes artifacts into it. -/
def write (directory : String) (form : Form) (artifacts : List Artifact) (tree : File.Tree) :
    File.Tree × Except Fault (List String) :=
  match tree.makeDirectories directory with
  | (made, .error reason) => (made, .error ⟨directory, reason⟩)
  | (made, .ok ()) => writeFiles directory form artifacts made

end Tabula.Export

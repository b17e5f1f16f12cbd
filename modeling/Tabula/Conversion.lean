import Tabula.Export
import Tabula.Resolution
import Tabula.Source.Reading

/-!
# Converting a source file

A conversion checks the name and the size of its input, reads it, resolves the workbook
and exports the artifacts. Nothing is written before all artifacts are there, and a dry
run writes nothing at all.
-/

namespace Tabula.Conversion

/-- What is converted, and where to. -/
structure Options where
  input : String
  directory : String := "."
  form : Export.Form := {}
  /-- The field that holds the rows of documents without a name of their own for it. -/
  rowsField : String := "data"
  dryRun : Bool := false
deriving DecidableEq, Repr

/-- Why a conversion fails. -/
inductive Fault where
  /-- The input cannot be looked at. -/
  | file (path : String) (reason : File.Fault)
  | tooLarge (path : String) (actual limit : Nat)
  /-- The input is not named like a source. -/
  | inputName (path : String)
  | source (fault : Source.Fault)
  | resolution (fault : Tabula.Fault)
  | writing (fault : Export.Fault)
deriving DecidableEq, Repr

/-- The wording of a fault. -/
def Fault.message : Fault → String
  | file path reason => s!"I/O error for '{path}': {reason.message}"
  | tooLarge path actual limit =>
      s!"File '{path}' is too large ({naturalText actual} bytes). " ++
        s!"Maximum allowed: {naturalText limit} bytes ({naturalText (limit / 1048576)} MB)"
  | inputName path => s!"Invalid input: '{path}' is not an .xlsx or .csv file name"
  | source fault => s!"Read error: {fault.message}"
  | resolution fault => fault.message
  | writing fault => s!"Write error: {fault.message}"

/-- The names of the artifacts, and the paths written unless the run was dry. -/
structure Summary where
  artifacts : List String
  written : List String
deriving DecidableEq, Repr

/-- The greatest size of an input in bytes, unless another is set. -/
def defaultSizeLimit : Nat := 1073741824

/-- The size limit that a setting gives: digits, with or without a plus sign, that fit
sixty-four bits. Any other text leaves the limit as it is. -/
def sizeLimit (setting : Option String) : Nat :=
  match setting.bind fun text => if text.toList.head? = some '-' then none else
      integerOfChars? text.toList with
  | some limit => if Number.isUnsignedWord limit then limit.toNat else defaultSizeLimit
  | none => defaultSizeLimit

/-- Whether a path ends in a dot-free, non-empty stem and the extension of a source. -/
def isSourceName (path : String) : Bool :=
  match (File.Path.fileName? path).bind fun name => Text.cut? '.' name.toList with
  | some (stem, extension) =>
      stem ≠ [] && (String.ofList extension = "xlsx" || String.ofList extension = "csv")
  | none => false

/-- Checks the name of an input. -/
def checkName (path : String) : Except Fault Unit :=
  if isSourceName path then .ok () else .error (.inputName path)

/-- Checks the size of an input. -/
def checkSize (limit : Nat) (path : String) (size : Nat) : Except Fault Unit :=
  if limit < size then .error (.tooLarge path size limit) else .ok ()

/-- The artifacts of an input that was found. -/
def artifactsOf (options : Options) (found : Except File.Fault File.Node) :
    Except Fault (List Artifact) :=
  match Source.read {} options.input found with
  | .error fault => .error (.source fault)
  | .ok workbook =>
      match workbook.publish { rowsField := options.rowsField } with
      | .error fault => .error (.resolution fault)
      | .ok publication => .ok publication.artifacts

/-- Everything up to the export: the artifacts of the input, with nothing written. -/
def prepare (options : Options) (limit : Nat) (tree : File.Tree) :
    Except Fault (List Artifact) :=
  match checkName options.input with
  | .error fault => .error fault
  | .ok () =>
      match tree.find options.input with
      | .error reason => .error (.file options.input reason)
      | .ok node =>
          match checkSize limit options.input node.size with
          | .error fault => .error fault
          | .ok () => artifactsOf options (.ok node)

theorem artifactsOf_eq_error {options : Options} {found : Except File.Fault File.Node}
    {fault : Fault} (failed : artifactsOf options found = .error fault) :
    (∃ unread, fault = .source unread ∧
        Source.read {} options.input found = .error unread) ∨
      ∃ unresolved, fault = .resolution unresolved := by
  unfold artifactsOf at failed
  split at failed
  · rename_i unread isUnread
    cases failed
    exact Or.inl ⟨unread, rfl, isUnread⟩
  · split at failed
    · cases failed
      exact Or.inr ⟨_, rfl⟩
    · cases failed

/-- What stands in the way of the artifacts: the name, then the file, then its size, and what it
holds at last. -/
theorem prepare_eq_error {options : Options} {limit : Nat} {tree : File.Tree} {fault : Fault}
    (failed : prepare options limit tree = .error fault) :
    fault = .inputName options.input ∨
      checkName options.input = .ok () ∧
        ((∃ reason, fault = .file options.input reason) ∨
          ∃ node, tree.find options.input = .ok node ∧
            (fault = .tooLarge options.input node.size limit ∨
              artifactsOf options (.ok node) = .error fault)) := by
  unfold prepare at failed
  cases checked : checkName options.input with
  | error refused =>
      rw [checked] at failed
      cases failed
      unfold checkName at checked
      split at checked
      · cases checked
      · cases checked
        exact Or.inl rfl
  | ok _ =>
      refine Or.inr ⟨rfl, ?_⟩
      rw [checked] at failed
      dsimp only at failed
      split at failed
      · cases failed
        exact Or.inl ⟨_, rfl⟩
      · rename_i node found
        refine Or.inr ⟨node, found, ?_⟩
        unfold checkSize at failed
        by_cases isTooLarge : limit < node.size
        · rw [if_pos isTooLarge] at failed
          cases failed
          exact Or.inl rfl
        · rw [if_neg isTooLarge] at failed
          exact Or.inr failed

/-- Converts a source file of a tree. -/
def run (options : Options) (limit : Nat) (tree : File.Tree) :
    File.Tree × Except Fault Summary :=
  match prepare options limit tree with
  | .error fault => (tree, .error fault)
  | .ok artifacts =>
      let names := artifacts.map Artifact.name
      if options.dryRun then
        (tree, .ok { artifacts := names, written := [] })
      else
        match Export.write options.directory options.form artifacts tree with
        | (after, .error fault) => (after, .error (.writing fault))
        | (after, .ok paths) => (after, .ok { artifacts := names, written := paths })

/-- A run fails before it has its artifacts, or when it writes. -/
theorem run_eq_error {options : Options} {limit : Nat} {tree : File.Tree} {fault : Fault}
    (failed : (run options limit tree).2 = .error fault) :
    prepare options limit tree = .error fault ∨ ∃ unwritten, fault = .writing unwritten := by
  unfold run at failed
  cases prepared : prepare options limit tree with
  | error refused =>
      rw [prepared] at failed
      cases failed
      exact Or.inl rfl
  | ok artifacts =>
      rw [prepared] at failed
      dsimp only at failed
      split at failed
      · cases failed
      · split at failed
        · cases failed
          exact Or.inr ⟨_, rfl⟩
        · cases failed

end Tabula.Conversion

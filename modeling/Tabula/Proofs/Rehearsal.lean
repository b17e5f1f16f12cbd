import Tabula.Conversion
import Tabula.Proofs.File.Writes

/-!
# Conversions are all or nothing

A conversion has all its artifacts before it writes the first of them. So whatever fails earlier
leaves the tree as it was, and a dry run fails in the same way; from there on a dry run succeeds
and names the artifacts that the real run writes. If writing fails, the files are those of the
tree before it with the first artifacts written in order.
-/

namespace Tabula.Conversion

open File Export

/-- Whether a conversion failed when it wrote. -/
def Fault.isWriting : Fault → Bool
  | writing _ => true
  | _ => false

variable {options : Options} {limit : Nat} {tree : Tree} {artifacts : List Artifact}

/-- Nothing is written before the export. -/
theorem isWriting_eq_false_of_prepare {fault : Fault}
    (failed : prepare options limit tree = .error fault) : fault.isWriting = false := by
  rcases prepare_eq_error failed with rfl | ⟨_, ⟨_, rfl⟩ | ⟨_, _, rfl | unmade⟩⟩
  · rfl
  · rfl
  · rfl
  · rcases artifactsOf_eq_error unmade with ⟨_, rfl, _⟩ | ⟨_, rfl⟩
    · rfl
    · rfl

/-- Whether a run is dry makes no difference before the export. -/
theorem prepare_with_dryRun (options : Options) (limit : Nat) (tree : Tree) (dryRun : Bool) :
    prepare { options with dryRun } limit tree = prepare options limit tree := by
  unfold prepare artifactsOf
  dsimp only

theorem run_of_prepare_eq_error {fault : Fault}
    (failed : prepare options limit tree = .error fault) :
    run options limit tree = (tree, .error fault) := by
  rw [run, failed]

theorem run_of_dryRun (prepared : prepare options limit tree = .ok artifacts)
    (isDry : options.dryRun = true) :
    run options limit tree =
      (tree, .ok { artifacts := artifacts.map Artifact.name, written := [] }) := by
  rw [run, prepared]
  exact if_pos isDry

theorem run_of_not_dryRun (prepared : prepare options limit tree = .ok artifacts)
    (isReal : options.dryRun = false) :
    run options limit tree =
      ((Export.write options.directory options.form artifacts tree).1,
        match (Export.write options.directory options.form artifacts tree).2 with
        | .error fault => .error (.writing fault)
        | .ok paths => .ok { artifacts := artifacts.map Artifact.name, written := paths }) := by
  rw [run, prepared]
  dsimp only
  rw [if_neg (by rw [isReal]; exact Bool.false_ne_true)]
  cases Export.write options.directory options.form artifacts tree with
  | mk after outcome => cases outcome <;> rfl

/-- The tree after a conversion whose writing failed: the directory could not be made and no
file has changed, or an artifact could not be written after those in front of it. -/
inductive Interrupted (options : Options) (tree : Tree) (artifacts : List Artifact)
    (after : Tree) : Export.Fault → Prop where
  | directory (reason : File.Fault)
      (refused : tree.makeDirectories options.directory = (after, .error reason))
      (contents : after.content? = tree.content?) :
      Interrupted options tree artifacts after ⟨options.directory, reason⟩
  | file (done : List Artifact) (failed : Artifact) (later : List Artifact) (reason : File.Fault)
      (divided : artifacts = done ++ failed :: later)
      (refused : after.writeFile (filePath options.directory options.form failed)
        (options.form.content failed) = .error reason)
      (contents : after.content? = contentsAfter options.directory options.form tree done) :
      Interrupted options tree artifacts after
        ⟨filePath options.directory options.form failed, reason⟩

/-- A real run that has its artifacts can only fail when it writes, and names them all if it
does not. -/
theorem run_real_cases (prepared : prepare options limit tree = .ok artifacts)
    (isReal : options.dryRun = false) :
    (∃ paths, (run options limit tree).2 =
      .ok { artifacts := artifacts.map Artifact.name, written := paths }) ∨
    ∃ fault, (run options limit tree).2 = .error (.writing fault) ∧
      Interrupted options tree artifacts (run options limit tree).1 fault := by
  rw [run_of_not_dryRun prepared isReal]
  dsimp only
  have isMade := tree.madeIn_makeDirectories options.directory
  rcases ended_write artifacts tree with ⟨reason, isError, refused⟩ | ended
  · rw [refused] at isMade
    rw [isError]
    exact Or.inr ⟨_, rfl, .directory reason refused isMade.content⟩
  · generalize (Export.write options.directory options.form artifacts tree).1 = after at ended ⊢
    generalize (Export.write options.directory options.form artifacts tree).2 = outcome
      at ended ⊢
    cases ended with
    | interrupted done failed later reason divided wrote refused =>
        exact Or.inr ⟨_, rfl, .file done failed later reason divided refused wrote.content⟩
    | finished wrote => exact Or.inl ⟨_, rfl⟩

/-- A dry run, and a run that fails before it writes, leave the tree as it was. A dry run fails
like the real run, or names the artifacts that the real run names unless writing fails. And if
writing fails, either the directory could not be made and no file has changed, or the files are
those of the tree before with the artifacts in front of the failed one written in order. -/
theorem run_allOrNothing (options : Options) (limit : Nat) (tree : Tree) :
    ((options.dryRun = true ∨
        ∃ fault, (run options limit tree).2 = .error fault ∧ fault.isWriting = false) →
      (run options limit tree).1 = tree) ∧
    ((∃ fault, fault.isWriting = false ∧
        (run { options with dryRun := true } limit tree).2 = .error fault ∧
        (run { options with dryRun := false } limit tree).2 = .error fault) ∨
      ∃ names,
        (run { options with dryRun := true } limit tree).2 =
          .ok { artifacts := names, written := [] } ∧
        ((∃ paths, (run { options with dryRun := false } limit tree).2 =
            .ok { artifacts := names, written := paths }) ∨
          ∃ fault, (run { options with dryRun := false } limit tree).2 =
            .error (.writing fault))) ∧
    ∀ fault, (run options limit tree).2 = .error (.writing fault) →
      ∃ artifacts, prepare options limit tree = .ok artifacts ∧
        Interrupted options tree artifacts (run options limit tree).1 fault := by
  have dryPrepared := prepare_with_dryRun options limit tree true
  have realPrepared := prepare_with_dryRun options limit tree false
  cases prepared : prepare options limit tree with
  | error fault =>
      have notWriting := isWriting_eq_false_of_prepare prepared
      rw [prepared] at dryPrepared realPrepared
      rw [run_of_prepare_eq_error prepared, run_of_prepare_eq_error dryPrepared,
        run_of_prepare_eq_error realPrepared]
      refine ⟨fun _ => rfl, Or.inl ⟨fault, notWriting, rfl, rfl⟩, fun writing isWriting => ?_⟩
      cases isWriting
      cases notWriting
  | ok artifacts =>
      rw [prepared] at dryPrepared realPrepared
      refine ⟨?_, Or.inr ⟨artifacts.map Artifact.name, ?_, ?_⟩, ?_⟩
      · intro stopped
        cases isDry : options.dryRun with
        | true => rw [run_of_dryRun prepared isDry]
        | false =>
            rw [isDry] at stopped
            obtain ⟨fault, failed, notWriting⟩ := stopped.resolve_left Bool.false_ne_true
            rcases run_real_cases prepared isDry with ⟨paths, isOk⟩ | ⟨writing, isWriting, _⟩
            · rw [isOk] at failed
              cases failed
            · rw [isWriting] at failed
              cases failed
              cases notWriting
      · rw [run_of_dryRun dryPrepared rfl]
      · rcases run_real_cases realPrepared rfl with written | ⟨fault, failed, _⟩
        · exact Or.inl written
        · exact Or.inr ⟨fault, failed⟩
      · intro fault failed
        cases isDry : options.dryRun with
        | true =>
            rw [run_of_dryRun prepared isDry] at failed
            cases failed
        | false =>
            rcases run_real_cases prepared isDry with ⟨paths, isOk⟩ | ⟨writing, isWriting, left⟩
            · rw [isOk] at failed
              cases failed
            · rw [isWriting] at failed
              cases failed
              exact ⟨artifacts, rfl, left⟩

/-- A worksheet with one column and one row. -/
def sheetOf (name : String) : Sheet.Worksheet :=
  { name, cells := [⟨0, 0, .text "id"⟩, ⟨1, 0, .text name⟩] }

/-- A workbook file beside a directory in which one file name is taken by a directory. -/
def obstructed : Tree :=
  { nodes :=
      [(["book.xlsx"], .file (.workbook 6144 [sheetOf "A", sheetOf "B", sheetOf "C"])),
       (["out"], .emptyDirectory), (["B.json", "out"], .emptyDirectory)] }

/-- With room for the workbook file the first artifact is written, and the second one is in the
way of a directory. With less room nothing happens at all. -/
theorem run_allOrNothing_obstructed :
    (run { input := "book.xlsx", directory := "out", dryRun := true } 6144 obstructed).2 =
        .ok { artifacts := ["A", "B", "C"], written := [] } ∧
      (∃ artifacts after,
        run { input := "book.xlsx", directory := "out" } 6144 obstructed =
          (after, .error (.writing ⟨"out/B.json", .isDirectory⟩)) ∧
        Interrupted { input := "book.xlsx", directory := "out" } obstructed artifacts after
          ⟨"out/B.json", .isDirectory⟩) ∧
      run { input := "book.xlsx", directory := "out" } 6143 obstructed =
        (obstructed, .error (.tooLarge "book.xlsx" 6144 6143)) := by
  have failed : (run { input := "book.xlsx", directory := "out" } 6144 obstructed).2 =
      .error (.writing ⟨"out/B.json", .isDirectory⟩) := by rfl
  obtain ⟨_, _, interrupted⟩ :=
    run_allOrNothing { input := "book.xlsx", directory := "out" } 6144 obstructed
  obtain ⟨artifacts, _, left⟩ := interrupted _ failed
  have refused : (run { input := "book.xlsx", directory := "out" } 6143 obstructed).2 =
      .error (.tooLarge "book.xlsx" 6144 6143) := by rfl
  obtain ⟨untouched, _⟩ :=
    run_allOrNothing { input := "book.xlsx", directory := "out" } 6143 obstructed
  have same := untouched (Or.inr ⟨_, refused, rfl⟩)
  exact ⟨by rfl, ⟨artifacts, _, Prod.ext rfl failed, left⟩, Prod.ext same refused⟩

end Tabula.Conversion

import Mathlib.Data.List.Nodup
import Tabula.Proofs.File.Names
import Tabula.Proofs.Run.Emission
import Tabula.Proofs.Run.Ending

/-!
# Which documents survive an export

After an export that succeeds, every file holds the document that was written there last. Files
of names without a slash are apart when the names are. Table names are unique, but an artifact
has its table's name without the option block: two tables that differ in their options alone are
written to one file, and the document of the first is lost.
-/

namespace Tabula

namespace Export

open File

variable {directory : String} {form : Form} {tree after : Tree} {artifacts : List Artifact}
  {artifact : Artifact}

/-- After an export that succeeds, a file holds the last document written to its place. -/
theorem Wrote.exists_find_eq (wrote : Wrote directory form tree artifacts after)
    (artifactMem : artifact ∈ artifacts) :
    ∃ last, lastAt? directory form tree artifacts (place directory form tree artifact) =
        some last ∧
      after.find (filePath directory form artifact) = .ok (.file (form.content last)) := by
  obtain ⟨last, isLast, held⟩ := wrote.exists_content?_eq artifactMem
  refine ⟨last, isLast, (wrote.reaches artifact artifactMem).find_eq ?_⟩
  rw [wrote.kept.locationOf_eq, ← place, held]

/-- Every document survives when names are apart and have no slash. -/
theorem Wrote.find_eq (wrote : Wrote directory form tree artifacts after)
    (free : ∀ artifact ∈ artifacts, '/' ∉ artifact.name.toList)
    (apart : (artifacts.map Artifact.name).Nodup) (artifactMem : artifact ∈ artifacts) :
    after.find (filePath directory form artifact) = .ok (.file (form.content artifact)) := by
  obtain ⟨last, isLast, found⟩ := wrote.exists_find_eq artifactMem
  obtain ⟨lastMem, samePlace⟩ := List.mem_filter.mp (List.mem_of_getLast? isLast)
  have sameName : last.name = artifact.name :=
    name_eq_of_place_eq (free last lastMem) (free artifact artifactMem)
      (of_decide_eq_true samePlace)
  rw [List.inj_on_of_nodup_map apart lastMem artifactMem sameName] at found
  exact found

end Export

namespace Workbook

open File Export

variable {settings : Settings} {workbook : Workbook}

/-- A table without an option block in its name is emitted under its name. -/
theorem name_of_artifactOf?_eq_some {name : String} {artifact : Artifact}
    (bare : settings.delimiters.tableOption ∉ name.toList)
    (emitted : workbook.artifactOf? settings name = some artifact) : artifact.name = name := by
  rw [Store.name_of_artifact?_eq_some emitted, TableName.base?_eq_none bare, Option.getD_none]

/-- Without option blocks the artifacts are named like tables, in the order of the tables. -/
theorem artifactNames_sublist {names : List String}
    (bare : ∀ name ∈ names, settings.delimiters.tableOption ∉ name.toList) :
    ((names.filterMap (workbook.artifactOf? settings)).map Artifact.name).Sublist names := by
  induction names with
  | nil => exact List.Sublist.refl []
  | cons name rest ih =>
      rw [List.forall_mem_cons] at bare
      rw [List.filterMap_cons]
      cases emitted : workbook.artifactOf? settings name with
      | none => exact (ih bare.2).cons name
      | some artifact =>
          rw [List.map_cons, name_of_artifactOf?_eq_some bare.1 emitted]
          exact (ih bare.2).cons_cons name

/-- An export that succeeds returns the path of every artifact, and the file there holds the
document that was written to its place last. If the artifacts have different names without a
slash, every file holds its own document; so it does if no table name has an option block or a
slash. -/
theorem publish_write {publication : Publication}
    (published : workbook.publish settings = .ok publication) {directory : String} {form : Form}
    {tree final : Tree} {paths : List String}
    (written : Export.write directory form publication.artifacts tree = (final, .ok paths)) :
    paths = publication.artifacts.map (filePath directory form) ∧
      (∀ artifact ∈ publication.artifacts, ∃ last,
        lastAt? directory form tree publication.artifacts (place directory form tree artifact) =
            some last ∧
          final.find (filePath directory form artifact) = .ok (.file (form.content last))) ∧
      ((∀ artifact ∈ publication.artifacts, '/' ∉ artifact.name.toList) →
        (publication.artifacts.map Artifact.name).Nodup →
          ∀ artifact ∈ publication.artifacts,
            final.find (filePath directory form artifact) =
              .ok (.file (form.content artifact))) ∧
      ((∀ name ∈ workbook.names,
          settings.delimiters.tableOption ∉ name.toList ∧ '/' ∉ name.toList) →
        ∀ artifact ∈ publication.artifacts,
          final.find (filePath directory form artifact) =
            .ok (.file (form.content artifact))) := by
  have wrote : Wrote directory form tree publication.artifacts final ∧
      paths = publication.artifacts.map (filePath directory form) := by
    rcases ended_write publication.artifacts tree with ⟨reason, isError, _⟩ | ended
    · rw [written] at isError
      cases isError
    · rw [written] at ended
      cases ended with
      | finished wrote => exact ⟨wrote, rfl⟩
  obtain ⟨wrote, rfl⟩ := wrote
  refine ⟨rfl, fun artifact artifactMem => wrote.exists_find_eq artifactMem,
    fun free apart artifact artifactMem => wrote.find_eq free apart artifactMem,
    fun plain artifact artifactMem => ?_⟩
  obtain ⟨unique, _, _, _, rfl⟩ := publish_eq_ok_iff.mp published
  have named : ((workbook.names.filterMap (workbook.artifactOf? settings)).map
      Artifact.name).Sublist workbook.names :=
    artifactNames_sublist fun name nameMem => (plain name nameMem).1
  apply wrote.find_eq _ (named.nodup unique) artifactMem
  intro other otherMem
  exact (plain other.name (named.subset (List.mem_map_of_mem otherMem))).2

/-- Tables that are emitted under names of their own. -/
def sorted : Workbook :=
  { tables :=
      [{ name := "Units", rows := [[("id", .str "1")]] },
       { name := "Items$key=list", rows := [[("id", .str "2")]] }] }

/-- What is emitted for the tables under names of their own. -/
def sortedArtifacts : List Artifact :=
  [{ name := "Units", document := .obj [("data", .arr [.obj [("id", .str "1")]])] },
   { name := "Items", document := .obj [("list", .arr [.obj [("id", .str "2")]])] }]

theorem publish_write_sorted :
    ∃ publication final, sorted.publish {} = .ok publication ∧
      publication.artifacts = sortedArtifacts ∧
      Export.write "out" { nameHead := "x-" } publication.artifacts {} =
        (final, .ok ["out/x-Units.json", "out/x-Items.json"]) ∧
      ∀ artifact ∈ sortedArtifacts,
        final.find (filePath "out" { nameHead := "x-" } artifact) =
          .ok (.file (Form.content { nameHead := "x-" } artifact)) := by
  obtain ⟨publication, published, artifactsEq⟩ :
      ∃ publication, sorted.publish {} = .ok publication ∧
        publication.artifacts = sortedArtifacts := ⟨_, rfl, rfl⟩
  have isOk : (Export.write "out" { nameHead := "x-" } sortedArtifacts {}).2 =
      .ok ["out/x-Units.json", "out/x-Items.json"] := by rfl
  rw [← artifactsEq] at isOk
  obtain ⟨final, written⟩ : ∃ final, Export.write "out" { nameHead := "x-" }
      publication.artifacts {} = (final, .ok ["out/x-Units.json", "out/x-Items.json"]) :=
    ⟨_, Prod.ext rfl isOk⟩
  obtain ⟨_, _, survive, _⟩ := publish_write published written
  refine ⟨publication, final, published, artifactsEq, written, ?_⟩
  rw [artifactsEq] at survive
  exact survive (by decide) (by decide)

/-- Tables with one base name. -/
def twofold : Workbook :=
  { tables :=
      [{ name := "Items$key=a", rows := [[("id", .str "1")]] },
       { name := "Items$key=b", rows := [[("id", .str "2")]] }] }

/-- What is emitted for the tables with one base name. -/
def twofoldArtifacts : List Artifact :=
  [{ name := "Items", document := .obj [("a", .arr [.obj [("id", .str "1")]])] },
   { name := "Items", document := .obj [("b", .arr [.obj [("id", .str "2")]])] }]

/-- Both documents are reported as written, and the first of them is gone. -/
theorem write_twofold :
    (twofold.publish {}).toOption.map Publication.artifacts = some twofoldArtifacts ∧
      (Export.write "out" {} twofoldArtifacts {}).2 = .ok ["out/Items.json", "out/Items.json"] ∧
      (Export.write "out" {} twofoldArtifacts {}).1.find "out/Items.json" =
        .ok (.file (Form.content {} twofoldArtifacts[1])) ∧
      Form.content {} twofoldArtifacts[0] ≠ Form.content {} twofoldArtifacts[1] := by
  exact ⟨by rfl, by rfl, by rfl, by decide⟩

end Workbook

end Tabula

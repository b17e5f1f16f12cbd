import Tabula.Proofs.File.Names
import Tabula.Proofs.Run.Emission
import Tabula.Proofs.Run.Ending

/-!
# Which files an export touches

Whether an export succeeds or fails, it changes no file but those of its artifacts. Such a file
lies in the output directory when the name of its artifact has no slash, as it does when no table
name has one. But a name is joined to the directory as it is, so the steps that it spells are
taken: two dots lead out of the directory, and a name that starts with a slash ignores it.
-/

namespace Tabula

namespace Export

open File

variable {directory : String} {form : Form} {tree after : Tree} {artifacts : List Artifact}

/-- The location of the directory that the file for an artifact is put in: where the parts of its
name lead from the output directory, or from the root if the name is absolute. -/
def surroundings (directory : String) (form : Form) (tree : Tree) (artifact : Artifact) :
    Location :=
  (Path.parts (form.fileName artifact.name)).dropLast.foldl Tree.next
    (tree.base directory (form.fileName artifact.name))

/-- The file at a location lies directly in the directory at another one. -/
def LiesIn (location directory : Location) : Prop :=
  ∃ name, location = name :: directory

theorem liesIn_cons_iff {name : String} {around directory : Location} :
    LiesIn (name :: around) directory ↔ around = directory := by
  constructor
  · rintro ⟨other, same⟩
    exact (List.cons.inj same).2
  · rintro rfl
    exact ⟨name, rfl⟩

/-- Every file lies directly in its surroundings. -/
theorem liesIn_surroundings (directory : String) (form : Form) (tree : Tree)
    (artifact : Artifact) :
    LiesIn (place directory form tree artifact) (surroundings directory form tree artifact) := by
  obtain ⟨front, last, divided⟩ := Path.exists_parts_append (form.nameHead ++ artifact.name)
  have parts : Path.parts (form.fileName artifact.name) = front ++ [last ++ ".json"] :=
    divided ".json" (by decide)
  refine ⟨last ++ ".json", ?_⟩
  rw [place, filePath, Tree.locationOf_join, surroundings, parts, List.foldl_concat,
    List.dropLast_concat, Tree.next_append_json]

/-- A file lies in one directory. -/
theorem liesIn_place_iff {artifact : Artifact} {location : Location} :
    LiesIn (place directory form tree artifact) location ↔
      surroundings directory form tree artifact = location := by
  obtain ⟨name, placed⟩ := liesIn_surroundings directory form tree artifact
  rw [placed, liesIn_cons_iff]

theorem slash_not_mem_fileName {artifact : Artifact} (headFree : '/' ∉ form.nameHead.toList)
    (free : '/' ∉ artifact.name.toList) : '/' ∉ (form.fileName artifact.name).toList := by
  rw [Form.fileName, String.toList_append, String.toList_append, List.mem_append, List.mem_append,
    not_or, not_or]
  exact ⟨⟨headFree, free⟩, by decide⟩

/-- Without a slash in its name, a file is in the output directory, under its own name. -/
theorem place_eq_of_free {artifact : Artifact} (headFree : '/' ∉ form.nameHead.toList)
    (free : '/' ∉ artifact.name.toList) :
    place directory form tree artifact =
      form.fileName artifact.name :: tree.locationOf directory := by
  have nameFree := slash_not_mem_fileName headFree free
  rw [place, filePath, Tree.locationOf_join, Path.parts_of_free nameFree, List.foldl_cons,
    List.foldl_nil, Tree.base, Path.isAbsolute_of_free nameFree, if_neg Bool.false_ne_true,
    Form.fileName, Tree.next_append_json]

/-- Writing artifacts changes no file but theirs. -/
theorem Wrote.exists_of_content?_ne {done : List Artifact} {location : Location}
    (wrote : Wrote directory form tree done after)
    (changed : after.content? location ≠ tree.content? location) :
    ∃ artifact ∈ done, place directory form tree artifact = location ∧
      after.content? location = some (form.content artifact) := by
  rw [wrote.content, contentsAfter_eq] at changed ⊢
  cases isLast : lastAt? directory form tree done location with
  | none =>
      rw [isLast] at changed
      exact absurd rfl changed
  | some artifact =>
      obtain ⟨artifactMem, placed⟩ := List.mem_filter.mp (List.mem_of_getLast? isLast)
      exact ⟨artifact, artifactMem, of_decide_eq_true placed, rfl⟩

/-- However an export ends, every file it has changed is the file of an artifact and holds its
document. -/
theorem exists_of_content?_write_ne {location : Location}
    (changed : (write directory form artifacts tree).1.content? location ≠
      tree.content? location) :
    ∃ artifact ∈ artifacts, place directory form tree artifact = location ∧
      (write directory form artifacts tree).1.content? location =
        some (form.content artifact) := by
  rcases ended_write artifacts tree with ⟨reason, _, refused⟩ | ended
  · have isMade := (tree.madeIn_makeDirectories directory).content
    rw [refused] at isMade
    exact absurd (congrFun isMade location) changed
  · generalize (write directory form artifacts tree).1 = after at changed ended ⊢
    generalize (write directory form artifacts tree).2 = outcome at ended
    cases ended with
    | interrupted done failed later reason divided wrote refused =>
        obtain ⟨artifact, artifactMem, written⟩ := wrote.exists_of_content?_ne changed
        exact ⟨artifact, divided ▸ List.mem_append_left _ artifactMem, written⟩
    | finished wrote => exact wrote.exists_of_content?_ne changed

/-- An export that succeeds has made the file of every artifact. -/
theorem isSome_content?_write {paths : List String} {artifact : Artifact}
    (written : (write directory form artifacts tree).2 = .ok paths)
    (artifactMem : artifact ∈ artifacts) :
    ((write directory form artifacts tree).1.content?
      (place directory form tree artifact)).isSome = true := by
  rcases ended_write artifacts tree with ⟨reason, isError, _⟩ | ended
  · rw [written] at isError
    cases isError
  · rw [written] at ended
    cases ended with
    | finished wrote =>
        obtain ⟨last, _, held⟩ := wrote.exists_content?_eq artifactMem
        rw [held]
        rfl

end Export

namespace Workbook

open File Export

variable {settings : Settings} {workbook : Workbook}

/-- The name of an artifact is made of characters of its table's name. -/
theorem mem_name_of_artifactOf? {name : String} {artifact : Artifact} {c : Char}
    (emitted : workbook.artifactOf? settings name = some artifact)
    (inside : c ∈ artifact.name.toList) : c ∈ name.toList := by
  have called := Store.name_of_artifact?_eq_some emitted
  cases based : TableName.base? settings.delimiters name with
  | none =>
      rw [called, based, Option.getD_none] at inside
      exact inside
  | some base =>
      rw [called, based, Option.getD_some] at inside
      obtain ⟨_, block, divided⟩ := TableName.base?_eq_some_iff.mp based
      rw [divided]
      exact List.mem_append_left _ inside

/-- However an export of a run ends, every file it has changed is the file of one of the run's
artifacts, and if it succeeds all of them are there. The file of an artifact lies in the output
directory just if the steps that its name spells lead there, in particular if neither the name of
the artifact nor the start of the file name has a slash. So all files lie there if no table name
has one. -/
theorem publish_write_within {publication : Publication}
    (published : workbook.publish settings = .ok publication) (directory : String) (form : Form)
    (tree : Tree) :
    (∀ location,
        (Export.write directory form publication.artifacts tree).1.content? location ≠
            tree.content? location →
          ∃ artifact ∈ publication.artifacts,
            location = tree.locationOf (filePath directory form artifact) ∧
              (Export.write directory form publication.artifacts tree).1.content? location =
                some (form.content artifact)) ∧
      (∀ artifact ∈ publication.artifacts,
        (∀ paths, (Export.write directory form publication.artifacts tree).2 = .ok paths →
          ((Export.write directory form publication.artifacts tree).1.content?
            (tree.locationOf (filePath directory form artifact))).isSome = true) ∧
        (LiesIn (tree.locationOf (filePath directory form artifact))
            (tree.locationOf directory) ↔
          surroundings directory form tree artifact = tree.locationOf directory) ∧
        ('/' ∉ form.nameHead.toList → '/' ∉ artifact.name.toList →
          tree.locationOf (filePath directory form artifact) =
            form.fileName artifact.name :: tree.locationOf directory)) ∧
      ('/' ∉ form.nameHead.toList → (∀ name ∈ workbook.names, '/' ∉ name.toList) →
        ∀ location,
          (Export.write directory form publication.artifacts tree).1.content? location ≠
              tree.content? location →
            ∃ artifact ∈ publication.artifacts,
              location = form.fileName artifact.name :: tree.locationOf directory) := by
  obtain ⟨_, _, _, _, rfl⟩ := publish_eq_ok_iff.mp published
  refine ⟨fun location changed => ?_, fun artifact artifactMem =>
    ⟨fun paths written => isSome_content?_write written artifactMem, liesIn_place_iff,
      place_eq_of_free⟩, fun headFree plain location changed => ?_⟩
  · obtain ⟨artifact, artifactMem, rfl, held⟩ := exists_of_content?_write_ne changed
    exact ⟨artifact, artifactMem, rfl, held⟩
  · obtain ⟨artifact, artifactMem, rfl, _⟩ := exists_of_content?_write_ne changed
    obtain ⟨name, nameMem, emitted⟩ := List.mem_filterMap.mp artifactMem
    exact ⟨artifact, artifactMem, place_eq_of_free headFree fun inside =>
      plain name nameMem (mem_name_of_artifactOf? emitted inside)⟩

/-- Tables of which the first is called like a path to the parent, and the last like a path from
the root. -/
def outward : Workbook :=
  { tables :=
      ["../up", "Units", "/up"].map fun name => { name, rows := [[("id", .str "1")]] } }

/-- What is emitted for the tables that are called like paths. -/
def outwardArtifacts : List Artifact :=
  ["../up", "Units", "/up"].map fun name =>
    { name, document := .obj [("data", .arr [.obj [("id", .str "1")]])] }

/-- An empty directory to work in. -/
def home : Tree :=
  { workingDirectory := ["home"], nodes := [(["home"], .emptyDirectory)] }

theorem publish_write_within_outward :
    ∃ publication, outward.publish {} = .ok publication ∧
      (∀ location,
        (Export.write "out" {} publication.artifacts home).1.content? location ≠
            home.content? location →
          location ∈ [["up.json", "home"], ["Units.json", "out", "home"], ["up.json"]]) ∧
      ∀ artifact ∈ publication.artifacts,
        (LiesIn (home.locationOf (filePath "out" {} artifact)) (home.locationOf "out") ↔
          surroundings "out" {} home artifact = ["out", "home"]) := by
  obtain ⟨publication, published, artifactsEq⟩ :
      ∃ publication, outward.publish {} = .ok publication ∧
        publication.artifacts = outwardArtifacts := ⟨_, rfl, rfl⟩
  obtain ⟨touched, places, _⟩ := publish_write_within published "out" {} home
  refine ⟨publication, published, fun location changed => ?_,
    fun artifact artifactMem => (places artifact artifactMem).2.1⟩
  obtain ⟨artifact, artifactMem, rfl, _⟩ := touched location changed
  have all : ∀ artifact ∈ outwardArtifacts, home.locationOf (filePath "out" {} artifact) ∈
      [["up.json", "home"], ["Units.json", "out", "home"], ["up.json"]] := by decide
  exact all artifact (artifactsEq ▸ artifactMem)

/-- An export that succeeds has made files beside its directory and in the root. -/
theorem write_outward :
    (outward.publish {}).toOption.map Publication.artifacts = some outwardArtifacts ∧
      (Export.write "out" {} outwardArtifacts home).2 =
        .ok ["out/../up.json", "out/Units.json", "/up.json"] ∧
      ∀ location ∈ [["up.json", "home"], ["up.json"]],
        home.content? location = none ∧
          (Export.write "out" {} outwardArtifacts home).1.content? location ≠ none ∧
          ¬ LiesIn location (home.locationOf "out") := by
  have atOut : home.locationOf "out" = ["out", "home"] := by rfl
  refine ⟨by rfl, by rfl, ?_⟩
  rw [atOut]
  simp only [List.forall_mem_cons, liesIn_cons_iff]
  exact ⟨⟨by rfl, by decide, by decide⟩, ⟨by rfl, by decide, by decide⟩, List.forall_mem_nil _⟩

end Workbook

end Tabula

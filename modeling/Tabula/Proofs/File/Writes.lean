import Mathlib.Data.List.Induction
import Tabula.Export
import Tabula.Proofs.File.Walk

/-!
# What an export leaves behind

An export writes the artifacts in order until one of them cannot be written. What it leaves
behind differs from the tree before it by the writes up to there, each at the place that its
path had from the start, and by the directories that were made for them.
-/

namespace Tabula.Export

open File

variable {directory : String} {form : Form} {tree after : Tree}

/-- The location of the file for an artifact. -/
def place (directory : String) (form : Form) (tree : Tree) (artifact : Artifact) : Location :=
  tree.locationOf (filePath directory form artifact)

/-- The content of the file for an artifact. -/
def Form.content (form : Form) (artifact : Artifact) : Content :=
  .ofText (artifact.document.print form.style)

/-- The contents of all files of a tree after artifacts are written, one after another. -/
def contentsAfter (directory : String) (form : Form) (tree : Tree) (artifacts : List Artifact) :
    Location → Option Content :=
  artifacts.foldl
    (fun contents artifact =>
      Function.update contents (place directory form tree artifact) (some (form.content artifact)))
    tree.content?

/-- The last of the artifacts whose file is at a location. -/
def lastAt? (directory : String) (form : Form) (tree : Tree) (artifacts : List Artifact)
    (location : Location) : Option Artifact :=
  (artifacts.filter fun artifact => place directory form tree artifact = location).getLast?

/-- A location holds what was written there last. -/
theorem contentsAfter_eq (artifacts : List Artifact) (location : Location) :
    contentsAfter directory form tree artifacts location =
      match lastAt? directory form tree artifacts location with
      | some last => some (form.content last)
      | none => tree.content? location := by
  induction artifacts using List.reverseRecOn with
  | nil => rfl
  | append_singleton before artifact ih =>
      rw [contentsAfter, List.foldl_concat, ← contentsAfter, Function.update_apply, ih, lastAt?,
        lastAt?, List.filter_append, List.filter_singleton]
      by_cases same : location = place directory form tree artifact
      · rw [if_pos same, decide_eq_true same.symm, cond_true, List.getLast?_concat]
      · rw [if_neg same, decide_eq_false (Ne.symm same), cond_false, List.append_nil]

/-- The tree `after` is what writing the artifacts `done` makes of a tree. -/
structure Wrote (directory : String) (form : Form) (tree : Tree) (done : List Artifact)
    (after : Tree) : Prop where
  kept : tree.KeptIn after
  reaches : ∀ artifact ∈ done, after.Reaches (filePath directory form artifact)
  content : after.content? = contentsAfter directory form tree done

theorem Wrote.nil (tree : Tree) : Wrote directory form tree [] tree where
  kept := .refl tree
  reaches := List.forall_mem_nil _
  content := rfl

/-- The place of every artifact holds what was written there last. -/
theorem Wrote.exists_content?_eq {done : List Artifact} {artifact : Artifact}
    (wrote : Wrote directory form tree done after) (artifactMem : artifact ∈ done) :
    ∃ last, lastAt? directory form tree done (place directory form tree artifact) = some last ∧
      after.content? (place directory form tree artifact) = some (form.content last) := by
  have among : artifact ∈ done.filter fun other =>
      place directory form tree other = place directory form tree artifact :=
    List.mem_filter.mpr ⟨artifactMem, decide_eq_true rfl⟩
  obtain ⟨last, isLast⟩ : ∃ last, lastAt? directory form tree done
      (place directory form tree artifact) = some last :=
    Option.isSome_iff_exists.mp (List.getLast?_isSome.mpr (List.ne_nil_of_mem among))
  refine ⟨last, isLast, ?_⟩
  rw [wrote.content, contentsAfter_eq, isLast]

/-- One more write in front. -/
theorem Wrote.cons {artifact : Artifact} {rest : List Artifact} {written : Tree}
    (first : tree.writeFile (filePath directory form artifact) (form.content artifact) =
      .ok written)
    (later : Wrote directory form written rest after) :
    Wrote directory form tree (artifact :: rest) after := by
  obtain ⟨kept, reached, contents⟩ := Tree.writeFile_eq_ok first
  constructor
  · exact kept.trans later.kept
  · rw [List.forall_mem_cons]
    exact ⟨(kept.trans later.kept).reaches reached, later.reaches⟩
  · rw [later.content, contentsAfter, contentsAfter, List.foldl_cons, contents]
    simp only [place, kept.locationOf_eq]

/-- Directories that are made before the first write leave no other trace. -/
theorem Wrote.of_madeIn {made : Tree} {done : List Artifact} (isMade : tree.MadeIn made)
    (wrote : Wrote directory form made done after) : Wrote directory form tree done after where
  kept := isMade.kept.trans wrote.kept
  reaches := wrote.reaches
  content := by
    rw [wrote.content, contentsAfter, contentsAfter, isMade.content]
    simp only [place, isMade.kept.locationOf_eq]

/-- How writing artifacts ends: at the first that cannot be written, or with all paths. -/
inductive Ended (directory : String) (form : Form) (tree : Tree) (artifacts : List Artifact)
    (after : Tree) : Except Fault (List String) → Prop where
  | interrupted (done : List Artifact) (failed : Artifact) (later : List Artifact)
      (reason : File.Fault) (divided : artifacts = done ++ failed :: later)
      (wrote : Wrote directory form tree done after)
      (refused : after.writeFile (filePath directory form failed) (form.content failed) =
        .error reason) :
      Ended directory form tree artifacts after (.error ⟨filePath directory form failed, reason⟩)
  | finished (wrote : Wrote directory form tree artifacts after) :
      Ended directory form tree artifacts after (.ok (artifacts.map (filePath directory form)))

theorem Ended.of_madeIn {made : Tree} {artifacts : List Artifact} {outcome}
    (isMade : tree.MadeIn made) (ended : Ended directory form made artifacts after outcome) :
    Ended directory form tree artifacts after outcome := by
  cases ended with
  | interrupted done failed later reason divided wrote refused =>
      exact .interrupted done failed later reason divided (wrote.of_madeIn isMade) refused
  | finished wrote => exact .finished (wrote.of_madeIn isMade)

theorem writeFiles_cons (artifact : Artifact) (rest : List Artifact) (tree : Tree) :
    writeFiles directory form (artifact :: rest) tree =
      match tree.writeFile (filePath directory form artifact) (form.content artifact) with
      | .error reason => (tree, .error ⟨filePath directory form artifact, reason⟩)
      | .ok written =>
          ((writeFiles directory form rest written).1,
            (writeFiles directory form rest written).2.map
              (filePath directory form artifact :: ·)) := by
  rfl

theorem ended_writeFiles (artifacts : List Artifact) (tree : Tree) :
    Ended directory form tree artifacts (writeFiles directory form artifacts tree).1
      (writeFiles directory form artifacts tree).2 := by
  induction artifacts generalizing tree with
  | nil => exact .finished (.nil tree)
  | cons artifact rest ih =>
      rw [writeFiles_cons]
      split
      · rename_i reason refused
        exact .interrupted [] artifact rest reason rfl (.nil tree) refused
      · rename_i written isWritten
        have ended := ih written
        dsimp only
        generalize (writeFiles directory form rest written).1 = after at ended ⊢
        generalize (writeFiles directory form rest written).2 = outcome at ended ⊢
        cases ended with
        | interrupted done failed later reason divided wrote refused =>
            exact .interrupted (artifact :: done) failed later reason
              (congrArg (artifact :: ·) divided) (.cons isWritten wrote) refused
        | finished wrote => exact .finished (.cons isWritten wrote)

/-- An export that cannot make its directory writes nothing. -/
theorem ended_write (artifacts : List Artifact) (tree : Tree) :
    (∃ reason, (write directory form artifacts tree).2 = .error ⟨directory, reason⟩ ∧
      tree.makeDirectories directory = ((write directory form artifacts tree).1, .error reason)) ∨
      Ended directory form tree artifacts (write directory form artifacts tree).1
        (write directory form artifacts tree).2 := by
  unfold write
  split
  · rename_i made reason outcome
    exact Or.inl ⟨reason, rfl, outcome⟩
  · rename_i made outcome
    have isMade := tree.madeIn_makeDirectories directory
    rw [outcome] at isMade
    exact Or.inr ((ended_writeFiles artifacts made).of_madeIn isMade)

end Tabula.Export

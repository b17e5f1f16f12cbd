import Mathlib.Data.List.Basic
import Mathlib.Logic.Function.Basic
import Tabula.File.Tree

/-!
# Where paths lead

Without anything in its way a path leads to one location, which its parts and its start decide.
A walk that succeeds ends there, and it succeeds again as long as all directories stay. No
operation on a tree takes a directory away. So the location of a path is the same before, between
and after any number of writes, and a write changes the content of its own location alone.
-/

namespace Tabula.File

/-- The content of a file. -/
def Node.content? : Node → Option Content
  | directory _ => none
  | file content => some content

namespace Tree

variable {tree after : Tree} {path : String} {location found : Location} {parts : List String}

/-- The location that a path leads to when nothing is in its way. -/
def locationOf (tree : Tree) (path : String) : Location :=
  (Path.parts path).foldl next (tree.start path)

/-- The content of the file at a location. -/
def content? (tree : Tree) (location : Location) : Option Content :=
  (tree.node? location).bind Node.content?

/-- Whether a path can be walked to its location. -/
structure Reaches (tree : Tree) (path : String) : Prop where
  checked : checkPath path = .ok ()
  walked : tree.walk (tree.start path) (Path.parts path) = .ok (tree.locationOf path)

/-- All directories of a tree are still there, and so is the directory it works in. -/
structure KeptIn (tree after : Tree) : Prop where
  workingDirectory : after.workingDirectory = tree.workingDirectory
  directories : ∀ location size, tree.node? location = some (.directory size) →
    after.node? location = some (.directory size)

/-! ## Walks -/

theorem enter_eq_ok_iff :
    tree.enter location = .ok () ↔ ∃ size, tree.node? location = some (.directory size) := by
  unfold enter
  cases tree.node? location with
  | none => simp
  | some node =>
      cases node with
      | directory size => simp
      | file content => simp

/-- A step that succeeds starts in a directory and leads one part further. -/
theorem step_eq_ok_iff {part : String} :
    tree.step location part = .ok found ↔
      (∃ size, tree.node? location = some (.directory size)) ∧ checkPart part = .ok () ∧
        found = next location part := by
  unfold step
  cases entered : tree.enter location with
  | error fault =>
      have outside : ¬ ∃ size, tree.node? location = some (.directory size) := fun inside => by
        rw [enter_eq_ok_iff.mpr inside] at entered
        cases entered
      simp only [outside, false_and, reduceCtorEq]
  | ok _ =>
      have inside := enter_eq_ok_iff.mp entered
      cases checkPart part with
      | error fault => simp
      | ok _ =>
          simp only [inside, true_and, Except.ok.injEq]
          exact eq_comm

/-- A walk that succeeds ends where its parts lead. -/
theorem eq_foldl_of_walk_eq_ok (walked : tree.walk location parts = .ok found) :
    found = parts.foldl next location := by
  induction parts generalizing location with
  | nil =>
      cases walked
      rfl
  | cons part rest ih =>
      rw [walk] at walked
      cases stepped : tree.step location part with
      | error fault =>
          rw [stepped] at walked
          cases walked
      | ok further =>
          rw [stepped] at walked
          obtain ⟨_, _, rfl⟩ := step_eq_ok_iff.mp stepped
          exact ih walked

theorem walk_append (tree : Tree) (location : Location) (parts rest : List String) :
    tree.walk location (parts ++ rest) = tree.walk location parts >>= (tree.walk · rest) := by
  induction parts generalizing location with
  | nil => rfl
  | cons part parts ih =>
      rw [List.cons_append, walk, walk]
      cases tree.step location part with
      | error fault => rfl
      | ok further => exact ih further

/-- A walk succeeds in every tree that keeps the directories. -/
theorem KeptIn.walk (kept : tree.KeptIn after) (walked : tree.walk location parts = .ok found) :
    after.walk location parts = .ok found := by
  induction parts generalizing location with
  | nil => exact walked
  | cons part rest ih =>
      rw [Tree.walk] at walked ⊢
      cases stepped : tree.step location part with
      | error fault =>
          rw [stepped] at walked
          cases walked
      | ok further =>
          obtain ⟨⟨size, inside⟩, fits, isNext⟩ := step_eq_ok_iff.mp stepped
          have steppedAfter : after.step location part = .ok further :=
            step_eq_ok_iff.mpr ⟨⟨size, kept.directories location size inside⟩, fits, isNext⟩
          rw [stepped] at walked
          rw [steppedAfter]
          exact ih walked

theorem KeptIn.refl (tree : Tree) : tree.KeptIn tree :=
  ⟨rfl, fun _ _ inside => inside⟩

theorem KeptIn.trans {last : Tree} (kept : tree.KeptIn after) (later : after.KeptIn last) :
    tree.KeptIn last :=
  ⟨later.workingDirectory.trans kept.workingDirectory,
    fun location size inside =>
      later.directories location size (kept.directories location size inside)⟩

theorem KeptIn.start_eq (kept : tree.KeptIn after) (path : String) :
    after.start path = tree.start path := by
  rw [start, start, kept.workingDirectory]

theorem KeptIn.locationOf_eq (kept : tree.KeptIn after) (path : String) :
    after.locationOf path = tree.locationOf path := by
  rw [locationOf, locationOf, kept.start_eq]

theorem KeptIn.reaches (kept : tree.KeptIn after) (reaches : tree.Reaches path) :
    after.Reaches path where
  checked := reaches.checked
  walked := by
    rw [kept.start_eq, kept.locationOf_eq]
    exact kept.walk reaches.walked

/-- What a path that can be walked finds is the file at its location. -/
theorem Reaches.find_eq (reaches : tree.Reaches path) {content : Content}
    (held : tree.content? (tree.locationOf path) = some content) :
    tree.find path = .ok (.file content) := by
  rw [content?, Option.bind_eq_some_iff] at held
  obtain ⟨node, isNode, isContent⟩ := held
  rw [find, reaches.checked]
  dsimp only
  rw [reaches.walked]
  dsimp only
  rw [isNode]
  cases node with
  | directory size => cases isContent
  | file other =>
      cases isContent
      rfl

/-! ## Changes at one location -/

theorem node?_put {node : Node} (inside : location ≠ []) (wanted : Location) :
    (tree.put location node).node? wanted =
      if location = wanted then some node else tree.node? wanted := by
  unfold node? put
  by_cases root : wanted = []
  · rw [if_pos root, if_pos root, if_neg (root ▸ inside)]
  · rw [if_neg root, if_neg root, Entries.get?_put]

/-- Where no directory is, anything can be put. -/
theorem keptIn_put {node : Node} (inside : location ≠ [])
    (free : ∀ size, tree.node? location ≠ some (.directory size)) :
    tree.KeptIn (tree.put location node) where
  workingDirectory := rfl
  directories := by
    intro other size isDirectory
    rw [node?_put inside, if_neg]
    · exact isDirectory
    · rintro rfl
      exact free size isDirectory

theorem walk_concat (walked : tree.walk location parts = .ok found) (last : String) :
    tree.walk location (parts ++ [last]) = tree.step found last := by
  rw [walk_append, walked]
  change tree.walk found [last] = tree.step found last
  rw [walk]
  cases tree.step found last <;> rfl

/-- A place to put something is found by walking the whole path to it. -/
theorem target_eq_ok (targeted : tree.target path parts = .ok (some location)) :
    tree.walk (tree.start path) parts = .ok location ∧ location ≠ [] := by
  unfold target at targeted
  cases walked : tree.walk (tree.start path) parts.dropLast with
  | error fault =>
      rw [walked] at targeted
      cases targeted
  | ok directory =>
      rw [walked] at targeted
      dsimp only at targeted
      cases stepped : tree.step directory (parts.getLast?.getD "") with
      | error fault =>
          rw [stepped] at targeted
          cases targeted
      | ok further =>
          rw [stepped] at targeted
          dsimp only at targeted
          split at targeted
          · rename_i isName
            cases targeted
            rw [Bool.and_eq_true, decide_eq_true_iff] at isName
            refine ⟨?_, List.cons_ne_nil _ _⟩
            rcases List.eq_nil_or_concat' parts with rfl | ⟨front, last, rfl⟩
            · exact absurd isName.1 (by decide)
            · rw [List.dropLast_concat] at walked
              rw [List.getLast?_concat, Option.getD_some] at isName stepped ⊢
              have isNext : further = last :: directory := by
                rw [(step_eq_ok_iff.mp stepped).2.2, next, if_neg isName.2, if_pos isName.1]
              rw [walk_concat walked, stepped, isNext]
          · cases targeted

/-- A write that succeeds has walked the whole path, and it changes the content of its location
alone. -/
theorem writeFile_eq_ok {content : Content} (written : tree.writeFile path content = .ok after) :
    tree.KeptIn after ∧ tree.Reaches path ∧
      after.content? = Function.update tree.content? (tree.locationOf path) (some content) := by
  unfold writeFile at written
  cases checked : checkPath path with
  | error fault =>
      rw [checked] at written
      cases written
  | ok _ =>
      rw [checked] at written
      dsimp only at written
      cases targeted : tree.target path (Path.parts path) with
      | error fault =>
          rw [targeted] at written
          cases written
      | ok location? =>
          rw [targeted] at written
          cases location? with
          | none => cases written
          | some location =>
              obtain ⟨walked, inside⟩ := target_eq_ok targeted
              have isLocation : location = tree.locationOf path := eq_foldl_of_walk_eq_ok walked
              subst isLocation
              dsimp only at written
              split at written
              · cases written
              · rename_i free
                cases written
                refine ⟨keptIn_put inside free, ⟨checked, walked⟩, ?_⟩
                funext wanted
                rw [content?, node?_put inside, Function.update_apply]
                by_cases same : wanted = tree.locationOf path
                · rw [if_pos same.symm, if_pos same]
                  rfl
                · rw [if_neg (Ne.symm same), if_neg same]
                  rfl

/-! ## Directories -/

/-- Making directories keeps those that are there, and changes no file. -/
structure MadeIn (tree after : Tree) : Prop where
  kept : tree.KeptIn after
  content : after.content? = tree.content?

theorem MadeIn.refl (tree : Tree) : tree.MadeIn tree :=
  ⟨.refl tree, rfl⟩

theorem MadeIn.trans {last : Tree} (made : tree.MadeIn after) (later : after.MadeIn last) :
    tree.MadeIn last :=
  ⟨made.kept.trans later.kept, later.content.trans made.content⟩

theorem madeIn_makeDirectory (made : tree.makeDirectory path = .ok after) :
    tree.MadeIn after := by
  unfold makeDirectory at made
  cases checked : checkPath path with
  | error fault =>
      rw [checked] at made
      cases made
  | ok _ =>
      rw [checked] at made
      dsimp only at made
      split at made
      · cases made
      · cases made
      · rename_i location targeted
        obtain ⟨_, inside⟩ := target_eq_ok targeted
        split at made
        · cases made
        · rename_i free
          cases made
          constructor
          · apply keptIn_put inside
            rw [free]
            exact fun _ => nofun
          · funext wanted
            rw [content?, node?_put inside]
            by_cases same : location = wanted
            · rw [if_pos same, content?, ← same, free]
              rfl
            · rw [if_neg same]
              rfl

theorem madeIn_ensureDirectory (tree : Tree) (path : String) :
    tree.MadeIn (tree.ensureDirectory path).1 := by
  unfold ensureDirectory
  split
  · rename_i made isMade
    exact madeIn_makeDirectory isMade
  · exact .refl tree

theorem madeIn_ensureAll (tree : Tree) (paths : List String) :
    tree.MadeIn (tree.ensureAll paths).1 := by
  induction paths generalizing tree with
  | nil => exact .refl tree
  | cons path rest ih =>
      have first := madeIn_ensureDirectory tree path
      rw [ensureAll]
      split
      · rename_i made fault isMade
        rw [isMade] at first
        exact first
      · rename_i made isMade
        rw [isMade] at first
        exact first.trans (ih made)

theorem madeIn_makeDirectories (tree : Tree) (path : String) :
    tree.MadeIn (tree.makeDirectories path).1 := by
  unfold makeDirectories
  split
  · exact .refl tree
  · have first := madeIn_ensureDirectory tree path
    split
    · rename_i unchanged isMissing
      rw [isMissing] at first
      have around := first.trans (madeIn_ensureAll unchanged (ancestors path))
      split
      · rename_i made fault isMade
        rw [isMade] at around
        exact around
      · rename_i made isMade
        rw [isMade] at around
        exact around.trans (madeIn_ensureDirectory made path)
    · exact first

end Tree

end Tabula.File

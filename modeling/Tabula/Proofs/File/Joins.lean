import Tabula.Proofs.File.Walk

/-!
# Where a name inside a directory leads

A name is joined to a directory as it is, with a slash between them, and the path is walked part
by part. So the walk first goes to the directory and then takes the parts of the name, whatever
they are; an absolute name is walked from the root.
-/

namespace Tabula.File

variable {front text : String}

namespace Path

/-- A slash divides the parts in front of it from those behind it. -/
theorem parts_append_slash (front text : String) :
    parts (front ++ "/" ++ text) = parts front ++ parts text := by
  have divided : (front ++ "/" ++ text).toList = front.toList ++ '/' :: text.toList := by
    rw [String.toList_append, String.toList_append, List.append_assoc]
    rfl
  rw [parts, divided, List.splitOn_append_cons_self, List.map_append, parts, parts]

theorem parts_of_free (free : '/' ∉ text.toList) : parts text = [text] := by
  rw [parts, List.splitOn_eq_singleton free, List.map_singleton, String.ofList_toList]

theorem isAbsolute_of_free (free : '/' ∉ text.toList) : isAbsolute text = false :=
  decide_eq_false fun isSlash => free (List.mem_of_head? isSlash)

/-- What a text starts with decides whether it is absolute. -/
theorem isAbsolute_append_of_ne (nonempty : front ≠ "") (text : String) :
    isAbsolute (front ++ text) = isAbsolute front := by
  unfold isAbsolute
  rw [String.toList_append, List.head?_append_of_ne_nil]
  exact fun isEmpty => nonempty (String.toList_inj.mp isEmpty)

end Path

namespace Tree

variable {tree : Tree}

theorem start_append_slash (nonempty : front ≠ "") (text : String) :
    tree.start (front ++ "/" ++ text) = tree.start front := by
  rw [start, start, String.append_assoc, Path.isAbsolute_append_of_ne nonempty]

/-- A path goes on behind a slash from the location in front of it. -/
theorem locationOf_append_slash (tree : Tree) (nonempty : front ≠ "") (text : String) :
    tree.locationOf (front ++ "/" ++ text) =
      (Path.parts text).foldl next (tree.locationOf front) := by
  rw [locationOf, locationOf, Path.parts_append_slash, List.foldl_append,
    start_append_slash nonempty]

theorem locationOf_of_isAbsolute (isAbsolute : Path.isAbsolute text = true) :
    tree.locationOf text = (Path.parts text).foldl next [] := by
  rw [locationOf, start, if_pos isAbsolute]

theorem locationOf_of_isRelative (isRelative : Path.isAbsolute text = false) :
    tree.locationOf text = (Path.parts text).foldl next tree.workingDirectory := by
  rw [locationOf, start, isRelative, if_neg Bool.false_ne_true]

/-- The root is where the path of a single slash leads. -/
theorem locationOf_slash_append (tree : Tree) (text : String) :
    tree.locationOf ("/" ++ text) = (Path.parts text).foldl next [] := by
  rw [locationOf_of_isAbsolute (Path.isAbsolute_append_of_ne (by decide) text)]
  have divided := Path.parts_append_slash "" text
  rw [String.empty_append] at divided
  rw [divided]
  rfl

/-- The location that the parts of a name are walked from when it is joined to a directory. -/
def base (tree : Tree) (directory name : String) : Location :=
  if Path.isAbsolute name then [] else tree.locationOf directory

/-- A name that is joined to a directory is walked from there. -/
theorem locationOf_join (tree : Tree) (directory name : String) :
    tree.locationOf (Path.join directory name) =
      (Path.parts name).foldl next (tree.base directory name) := by
  unfold Path.join base
  cases kind : Path.isAbsolute name with
  | true => exact locationOf_of_isAbsolute kind
  | false =>
      rw [if_neg Bool.false_ne_true, if_neg Bool.false_ne_true]
      split
      · rename_i closed
        rcases closed with rfl | closed
        · rw [String.empty_append, locationOf_of_isRelative kind]
          rfl
        · obtain ⟨front, divided⟩ := List.getLast?_eq_some_iff.mp closed
          obtain rfl : directory = String.ofList front ++ "/" := by
            rw [← String.toList_inj, divided, String.toList_append, String.toList_ofList]
            rfl
          by_cases isRoot : String.ofList front = ""
          · rw [isRoot, String.empty_append, locationOf_slash_append]
            rfl
          · have atDirectory := tree.locationOf_append_slash isRoot ""
            rw [String.append_empty] at atDirectory
            rw [tree.locationOf_append_slash isRoot, atDirectory]
            rfl
      · rename_i isOpen
        exact tree.locationOf_append_slash (fun isEmpty => isOpen (Or.inl isEmpty)) name

/-- The ending of a file name makes it a step, whatever is in front of it. -/
theorem next_append_json (location : Location) (front : String) :
    next location (front ++ ".json") = (front ++ ".json") :: location := by
  have lastLetter : (front ++ ".json").toList.getLast? = some 'n' := by
    rw [String.toList_append, List.getLast?_append]
    rfl
  have differs : ∀ step : String, step.toList.getLast? ≠ some 'n' → front ++ ".json" ≠ step :=
    fun step isOther same => isOther (same ▸ lastLetter)
  rw [next, if_neg (differs ".." (by decide)), if_pos]
  rw [Path.isStep, Bool.and_eq_true, decide_eq_true_iff, decide_eq_true_iff]
  exact ⟨differs "" (by decide), differs "." (by decide)⟩

end Tree

end Tabula.File

import Tabula.Proofs.File.Joins
import Tabula.Proofs.File.Writes

/-!
# Where the file of a name is

A name without a slash extends the last part of the path in front of it. So the files that an
export makes for such names are all in one directory, and names that differ have files that
differ.
-/

namespace Tabula

namespace File

variable {tail : String}

theorem Path.exists_parts_append (head : String) :
    ∃ front last, ∀ tail : String, '/' ∉ tail.toList →
      Path.parts (head ++ tail) = front ++ [last ++ tail] := by
  obtain ⟨front, last, divided⟩ := Text.exists_splitOn_append '/' head.toList
  refine ⟨front.map String.ofList, String.ofList last, fun tail free => ?_⟩
  rw [Path.parts, String.toList_append, divided tail.toList free, List.map_append,
    List.map_singleton, String.ofList_append, String.ofList_toList]

theorem Path.isAbsolute_append (free : '/' ∉ tail.toList) (head : String) :
    Path.isAbsolute (head ++ tail) = Path.isAbsolute head := by
  unfold Path.isAbsolute
  rw [String.toList_append]
  cases head.toList with
  | nil =>
      rw [List.nil_append, List.head?_nil]
      apply decide_eq_decide.mpr
      constructor
      · exact fun isSlash => absurd (List.mem_of_head? isSlash) free
      · exact nofun
  | cons c rest => rfl

theorem Path.join_append (free : '/' ∉ tail.toList) (directory head : String) :
    Path.join directory (head ++ tail) = Path.join directory head ++ tail := by
  unfold Path.join
  rw [Path.isAbsolute_append free]
  split
  · rfl
  · split
    · rw [String.append_assoc]
    · rw [String.append_assoc, String.append_assoc, String.append_assoc]

end File

namespace Export

open File

variable {directory : String} {form : Form} {tree : Tree} {artifact other : Artifact}

/-- What the name of a file ends in. -/
def ending (artifact : Artifact) : String :=
  artifact.name ++ ".json"

theorem slash_not_mem_ending (free : '/' ∉ artifact.name.toList) :
    '/' ∉ (ending artifact).toList := by
  rw [ending, String.toList_append, List.mem_append, not_or]
  exact ⟨free, by decide⟩

theorem filePath_eq (free : '/' ∉ artifact.name.toList) :
    filePath directory form artifact =
      Path.join directory form.nameHead ++ ending artifact := by
  rw [filePath, Form.fileName, String.append_assoc, ← ending,
    Path.join_append (slash_not_mem_ending free)]

/-- The ending makes a file name a step, whatever is in front of it. -/
theorem next_ending (location : Location) (head : String) (artifact : Artifact) :
    Tree.next location (head ++ ending artifact) = (head ++ ending artifact) :: location := by
  rw [ending, ← String.append_assoc, Tree.next_append_json]

/-- The files of names without a slash are in one directory, each under its own name. -/
theorem exists_place_eq (directory : String) (form : Form) (tree : Tree) :
    ∃ around head, ∀ artifact : Artifact, '/' ∉ artifact.name.toList →
      place directory form tree artifact = (head ++ ending artifact) :: around := by
  obtain ⟨front, last, divided⟩ := Path.exists_parts_append (Path.join directory form.nameHead)
  refine ⟨front.foldl Tree.next (tree.start (Path.join directory form.nameHead)), last,
    fun artifact free => ?_⟩
  have freeEnding := slash_not_mem_ending free
  have sameStart : tree.start (Path.join directory form.nameHead ++ ending artifact) =
      tree.start (Path.join directory form.nameHead) := by
    rw [Tree.start, Tree.start, Path.isAbsolute_append freeEnding]
  rw [place, filePath_eq free, Tree.locationOf, divided _ freeEnding, List.foldl_concat, sameStart,
    next_ending]

/-- Names without a slash that differ lead to different files. -/
theorem name_eq_of_place_eq (free : '/' ∉ artifact.name.toList)
    (otherFree : '/' ∉ other.name.toList)
    (same : place directory form tree artifact = place directory form tree other) :
    artifact.name = other.name := by
  obtain ⟨around, head, placeEq⟩ := exists_place_eq directory form tree
  rw [placeEq artifact free, placeEq other otherFree, List.cons.injEq] at same
  have texts := congrArg String.toList same.1
  rw [ending, ending, String.toList_append, String.toList_append, String.toList_append,
    String.toList_append] at texts
  exact String.toList_inj.mp (List.append_cancel_right (List.append_cancel_left texts))

end Export

end Tabula

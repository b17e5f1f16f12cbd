import Mathlib.Data.List.Basic
import Tabula.Proofs.Row.Edit

/-!
# The paths of a row alone

What the path columns of a row make of it when its links are left out. In a row without
links that is all that happens, and in any row it is what happens to the fields that no
link touches.
-/

namespace Tabula

namespace Fields

/-- The change that a column makes to a record when it is a path. -/
def unfoldColumn (d : Delimiters) (record : Fields) (key : String) : Fields :=
  match Column.ofKey d key with
  | .ok (.path segments) => Fields.unfold record key segments
  | _ => record

/-- The changes that the paths among the given columns make to a record. -/
def unfoldColumns (d : Delimiters) (columns : List String) (record : Fields) : Fields :=
  columns.foldl (unfoldColumn d) record

/-- A row with all of its paths unfolded. -/
def unfolded (d : Delimiters) (row : Fields) : Fields :=
  unfoldColumns d (Entries.keys row) row

section UnfoldColumn

variable {d : Delimiters} {record other : Fields} {key name : String}

theorem unfoldColumn_of_absent (absent : Entries.get? record key = none) :
    unfoldColumn d record key = record := by
  unfold unfoldColumn
  split
  · exact unfold_of_get?_eq_none absent _
  · rfl

theorem unfoldColumn_of_isPath_eq_false (noPath : Column.isPath d key = false) :
    unfoldColumn d record key = record := by
  unfold unfoldColumn
  split
  · rename_i segments read
    rw [Column.isPath, Column.of?_eq_some_iff.mpr read] at noPath
    cases noPath
  · rfl

theorem unfoldColumn_of_createdBy?_eq_none (nothing : Column.createdBy? d key = none) :
    unfoldColumn d record key = record := by
  unfold unfoldColumn
  split
  · rename_i segments read
    rw [Column.createdBy?, Column.of?_eq_some_iff.mpr read] at nothing
    obtain rfl : segments = [] := List.head?_eq_none_iff.mp nothing
    rfl
  · rfl

/-- A path column changes its own field and the one that it creates. -/
theorem get?_unfoldColumn_of_ne {root : String}
    (creates : Column.createdBy? d key = some root) (notKey : name ≠ key) (notRoot : name ≠ root) :
    Entries.get? (unfoldColumn d record key) name = Entries.get? record name := by
  unfold unfoldColumn
  split
  · rename_i segments read
    cases segments with
    | nil => rfl
    | cons first rest =>
        rw [Column.createdBy?, Column.of?_eq_some_iff.mpr read] at creates
        cases creates
        cases found : Entries.get? record key with
        | none => rw [unfold_of_get?_eq_none found]
        | some value =>
            rw [unfold_cons_of_get?_eq_some found, Entries.get?_put, if_neg (Ne.symm notRoot),
              Entries.get?_erase, if_neg (Ne.symm notKey)]
  · rfl

/-- Records that agree on what a path column reads agree on what it sets. -/
theorem get?_unfoldColumn_congr {shared : String → Prop}
    (agree : ∀ name, shared name → Entries.get? record name = Entries.get? other name)
    {root : String} (creates : Column.createdBy? d key = some root) (differ : key ≠ root)
    (keyShared : shared key) (rootShared : shared root) (nameShared : shared name) :
    Entries.get? (unfoldColumn d record key) name =
      Entries.get? (unfoldColumn d other key) name := by
  unfold unfoldColumn
  split
  · rename_i segments read
    cases segments with
    | nil => exact agree name nameShared
    | cons first rest =>
        rw [Column.createdBy?, Column.of?_eq_some_iff.mpr read] at creates
        cases creates
        cases found : Entries.get? record key with
        | none =>
            have otherAbsent := (agree key keyShared).symm.trans found
            rw [unfold_of_get?_eq_none found, unfold_of_get?_eq_none otherAbsent]
            exact agree name nameShared
        | some value =>
            have otherFound := (agree key keyShared).symm.trans found
            have sameBranch : branch record root rest value = branch other root rest value := by
              rw [branch, branch, agree root rootShared]
            rw [get?_unfold_cons differ found, get?_unfold_cons differ otherFound, sameBranch,
              agree name nameShared]
  · exact agree name nameShared

theorem unfoldColumns_concat (columns : List String) :
    unfoldColumns d (columns ++ [key]) record =
      unfoldColumn d (unfoldColumns d columns record) key := by
  rw [unfoldColumns, List.foldl_append]
  rfl

/-- Only the path columns count. -/
theorem unfoldColumns_filter_isPath (columns : List String) :
    unfoldColumns d (columns.filter (Column.isPath d)) record =
      unfoldColumns d columns record := by
  rw [unfoldColumns, List.foldl_filter]
  apply List.foldl_ext
  intro fields column _
  cases path : Column.isPath d column with
  | true => rw [if_pos rfl]
  | false => rw [if_neg Bool.false_ne_true, unfoldColumn_of_isPath_eq_false path]

end UnfoldColumn

end Fields

namespace Store

variable {settings : Settings} {store : Store} {record row : Fields} {key : String}

/-- A column other than a link does what it does as a path. -/
theorem applyColumn_of_isLink_eq_false
    (noLink : Column.isLink settings.delimiters key = false) :
    store.applyColumn settings record key =
      Fields.unfoldColumn settings.delimiters record key := by
  unfold applyColumn Fields.unfoldColumn
  cases read : Column.ofKey settings.delimiters key with
  | error fault => rfl
  | ok column =>
      cases column with
      | plain => rfl
      | path segments => rfl
      | link link =>
          rw [Column.isLink_eq_true_iff.mpr ⟨link, read⟩] at noLink
          cases noLink

/-- In a row without links the paths are all that counts. -/
theorem applyColumns_of_links_eq_nil (noLinks : Fields.links settings.delimiters row = []) :
    store.applyColumns settings row = Fields.unfolded settings.delimiters row := by
  have noLinkKey : ∀ key ∈ Entries.keys row,
      Column.isLink settings.delimiters key = false := by
    intro key keyMem
    rw [← Bool.not_eq_true, Column.isLink_eq_true_iff]
    rintro ⟨link, read⟩
    have member := Fields.mem_links.mpr ⟨key, keyMem, read⟩
    rw [noLinks] at member
    cases member
  apply List.foldl_ext
  intro record key keyMem
  exact applyColumn_of_isLink_eq_false (noLinkKey key keyMem)

end Store

end Tabula

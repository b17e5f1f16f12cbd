import Mathlib.Data.List.Forall2
import Tabula.Proofs.Csv.Rows

/-!
# The rows of lines

Below the header of a sheet there are lines of cells, and a line is a row of the table if one of
its cells is filled. What a row has to hold is said here column by column: a field for each filled
cell under the header, in order, with the name of the column and the value that the cell shows.
The records of a sheet are the rows in this sense, and there are no others.
-/

namespace Tabula.Sheet

variable {α : Type}

/-- The columns within a width in which a line has a filled cell, from left to right. -/
def filledAt (filled : α → Bool) (width : Nat) (cells : List α) : List Nat :=
  (List.range width).filter fun column => cells[column]?.any filled

/-- A field stands for a column of a line: it has the name of the column and the value that is
shown by the cell there. -/
structure FieldAt (shows : α → Value → Prop) (names : List String) (cells : List α) (column : Nat)
    (field : String × Value) : Prop where
  name : names[column]? = some field.1
  cell : ∃ cell, cells[column]? = some cell ∧ shows cell field.2

/-- A row is that of a line: it has one field for each filled cell under the header, in column
order, and no two of its fields have one name. -/
structure IsRow (filled : α → Bool) (shows : α → Value → Prop) (names : List String)
    (cells : List α) (row : Fields) : Prop where
  fields : List.Forall₂ (FieldAt shows names cells) (filledAt filled names.length cells) row
  distinct : Entries.Distinct row

/-- Rows are those of lines: one for each line with a filled cell under the header, in order. -/
def AreRows (filled : α → Bool) (shows : α → Value → Prop) (names : List String)
    (lines : List (List α)) (rows : List Fields) : Prop :=
  List.Forall₂ (IsRow filled shows names)
    (lines.filter fun cells => filledAt filled names.length cells ≠ []) rows

/-- Cells are read as they are described: the filled ones have a value, which is what they show. -/
structure ReadsAs (value? : α → Option Value) (filled : α → Bool) (shows : α → Value → Prop) :
    Prop where
  filled_eq : ∀ cell, filled cell = (value? cell).isSome
  shows_iff : ∀ cell value, shows cell value ↔ value? cell = some value

variable {filled : α → Bool} {shows : α → Value → Prop} {value? : α → Option Value}
  {names : List String} {name : String} {cell : α} {cells : List α} {row : Fields}

theorem filledAt_nil (filled : α → Bool) (width : Nat) : filledAt filled width [] = [] := by
  simp [filledAt]

/-- The columns of a line are its first one and, counted one further, those of the rest. -/
theorem filledAt_cons (filled : α → Bool) (width : Nat) (cell : α) (cells : List α) :
    filledAt filled (width + 1) (cell :: cells) =
      (if filled cell then [0] else []) ++ (filledAt filled width cells).map Nat.succ := by
  rw [filledAt, List.range_succ_eq_map, List.filter_cons, List.filter_map]
  have later : (List.range width).filter
      ((fun column => (cell :: cells)[column]?.any filled) ∘ Nat.succ) =
        filledAt filled width cells := rfl
  rw [later, List.getElem?_cons_zero, Option.any_some]
  split <;> rfl

/-- Within the width of a header, a line has a filled cell where it has one at all. -/
theorem filledAt_ne_nil_iff {width : Nat} (fits : cells.length ≤ width) :
    filledAt filled width cells ≠ [] ↔ cells.any filled = true := by
  rw [List.any_eq_true]
  constructor
  · intro somewhere
    obtain ⟨column, isFilled⟩ := List.exists_mem_of_ne_nil _ somewhere
    have filledThere : cells[column]?.any filled = true := (List.mem_filter.mp isFilled).2
    cases found : cells[column]? with
    | none =>
        rw [found] at filledThere
        cases filledThere
    | some cell =>
        rw [found] at filledThere
        exact ⟨cell, List.mem_of_getElem? found, filledThere⟩
  · rintro ⟨cell, inside, isFilled⟩
    obtain ⟨column, within, rfl⟩ := List.getElem_of_mem inside
    apply List.ne_nil_of_mem (a := column)
    rw [filledAt, List.mem_filter, List.mem_range, List.getElem?_eq_getElem within]
    exact ⟨Nat.lt_of_lt_of_le within fits, isFilled⟩

theorem fieldAt_zero_iff {field : String × Value} :
    FieldAt shows (name :: names) (cell :: cells) 0 field ↔ field.1 = name ∧ shows cell field.2 := by
  constructor
  · rintro ⟨named, other, here, shown⟩
    obtain rfl : cell = other := Option.some.inj here
    exact ⟨(Option.some.inj named).symm, shown⟩
  · rintro ⟨rfl, shown⟩
    exact ⟨rfl, cell, rfl, shown⟩

theorem fieldAt_succ_iff {column : Nat} {field : String × Value} :
    FieldAt shows (name :: names) (cell :: cells) column.succ field ↔
      FieldAt shows names cells column field :=
  ⟨fun ⟨named, shown⟩ => ⟨named, shown⟩, fun ⟨named, shown⟩ => ⟨named, shown⟩⟩

/-- The present cells by name are the only fields that stand for the filled columns. -/
theorem ReadsAs.forall₂_iff (reads : ReadsAs value? filled shows) :
    List.Forall₂ (FieldAt shows names cells) (filledAt filled names.length cells) row ↔
      row = cellsByName names (cells.map value?) := by
  induction names generalizing cells row with
  | nil => exact List.forall₂_nil_left_iff
  | cons name names ih =>
      cases cells with
      | nil =>
          rw [filledAt_nil]
          exact List.forall₂_nil_left_iff
      | cons cell cells =>
          have later (rest : Fields) : List.Forall₂ (FieldAt shows (name :: names) (cell :: cells))
              ((filledAt filled names.length cells).map Nat.succ) rest ↔
                rest = cellsByName names (cells.map value?) := by
            rw [List.forall₂_map_left_iff, ← ih]
            simp only [fieldAt_succ_iff]
          rw [List.length_cons, filledAt_cons, reads.filled_eq, cellsByName, List.map_cons,
            List.zip_cons_cons, List.filterMap_cons]
          cases isValue : value? cell with
          | none => exact later row
          | some value =>
              have here (field : String × Value) :
                  FieldAt shows (name :: names) (cell :: cells) 0 field ↔ field = (name, value) := by
                rw [fieldAt_zero_iff, reads.shows_iff, isValue, Option.some.injEq, Prod.ext_iff,
                  eq_comm (a := value)]
              rw [if_pos (Option.isSome_some), List.singleton_append, List.forall₂_cons_left_iff]
              constructor
              · rintro ⟨field, rest, isField, isRest, rfl⟩
                rw [(here field).mp isField, (later rest).mp isRest]
                rfl
              · rintro rfl
                exact ⟨_, _, (here _).mpr rfl, (later _).mpr rfl, rfl⟩

/-- A line has a filled cell under the header if and only if it has a present cell there. -/
theorem ReadsAs.filledAt_eq_nil_iff (reads : ReadsAs value? filled shows) :
    filledAt filled names.length cells = [] ↔ cellsByName names (cells.map value?) = [] := by
  have held : List.Forall₂ (FieldAt shows names cells) (filledAt filled names.length cells)
      (cellsByName names (cells.map value?)) := reads.forall₂_iff.mpr rfl
  constructor
  · intro nowhere
    rw [nowhere] at held
    exact List.forall₂_nil_left_iff.mp held
  · intro noField
    rw [noField] at held
    exact List.forall₂_nil_right_iff.mp held

theorem ReadsAs.isRow_iff (reads : ReadsAs value? filled shows) (distinct : names.Nodup) :
    IsRow filled shows names cells row ↔ row = cellsByName names (cells.map value?) := by
  rw [← reads.forall₂_iff]
  constructor
  · exact IsRow.fields
  · intro fields
    refine ⟨fields, ?_⟩
    rw [reads.forall₂_iff.mp fields]
    exact distinct_cellsByName distinct _

/-- The records of lines are their rows, and nothing else is. -/
theorem ReadsAs.areRows_iff (reads : ReadsAs value? filled shows) (distinct : names.Nodup)
    {lines : List (List α)} {rows : List Fields} :
    AreRows filled shows names lines rows ↔
      rows = lines.filterMap fun cells => record? names (cells.map value?) := by
  induction lines generalizing rows with
  | nil => exact List.forall₂_nil_left_iff
  | cons cells lines ih =>
      unfold AreRows at ih ⊢
      rw [List.filter_cons, List.filterMap_cons, record?_eq distinct]
      by_cases blank : cellsByName names (cells.map value?) = []
      · rw [if_pos blank, if_neg (by simp [reads.filledAt_eq_nil_iff.mpr blank])]
        exact ih
      · rw [if_neg blank, if_pos (by simpa [reads.filledAt_eq_nil_iff] using blank),
          List.forall₂_cons_left_iff]
        constructor
        · rintro ⟨row, later, isRow, areRows, rfl⟩
          rw [(reads.isRow_iff distinct).mp isRow, ih.mp areRows]
        · rintro rfl
          exact ⟨_, _, (reads.isRow_iff distinct).mpr rfl, ih.mpr rfl, rfl⟩

end Tabula.Sheet

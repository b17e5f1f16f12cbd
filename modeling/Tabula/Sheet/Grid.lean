import Tabula.Sheet.Cell
import Tabula.Sheet.Header
import Tabula.Workbook

/-!
# Grids of cells

The used range of a worksheet is the smallest rectangle around its cells other than empty
ones. Its first row is the header of a table and every later row with a value a row of it.
-/

namespace Tabula.Sheet

/-- A cell and its position, counted from zero. -/
structure Placed (α : Type) where
  row : Nat
  column : Nat
  content : α
deriving DecidableEq, Repr

/-- The cell at a column among the cells of one row; of several the last. -/
def cellAt (cells : List (Placed Cell)) (column : Nat) : Cell :=
  match cells.reverse.find? fun cell => cell.column = column with
  | some cell => cell.content
  | none => .empty

/-- The rows of the used range of a worksheet. -/
def grid (cells : List (Placed Cell)) : List (List Cell) :=
  match cells.filter fun cell => cell.content ≠ .empty with
  | [] => []
  | first :: rest =>
      let used := first :: rest
      let top := rest.foldl (fun least cell => min least cell.row) first.row
      let bottom := rest.foldl (fun greatest cell => max greatest cell.row) first.row
      let left := rest.foldl (fun least cell => min least cell.column) first.column
      let right := rest.foldl (fun greatest cell => max greatest cell.column) first.column
      (List.range (bottom + 1 - top)).map fun down =>
        let cellsOfRow := used.filter fun cell => cell.row = top + down
        (List.range (right + 1 - left)).map fun across => cellAt cellsOfRow (left + across)

/-- The table of a grid. -/
def tableOfGrid (name : String) : List (List Cell) → Table
  | [] => { name, rows := [] }
  | header :: rest =>
      let names := headerNames (header.map Cell.value?)
      { name, rows := rest.filterMap fun cells => record? names (cells.map Cell.value?) }

end Tabula.Sheet

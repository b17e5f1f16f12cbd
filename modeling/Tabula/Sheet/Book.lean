import Tabula.Sheet.Grid
import Tabula.Source.Fault

/-!
# Workbook files

A workbook file is a list of named worksheets, which become the tables of a workbook in
the same order. Worksheets are looked up by name, so a second one of the same name shows
the cells of the first. A malformed numeral or error code makes the whole file unreadable.
-/

namespace Tabula.Sheet

/-- A worksheet of a workbook file. -/
structure Worksheet where
  name : String
  cells : List (Placed StoredCell)
deriving DecidableEq, Repr

/-- Reads the cells of a worksheet; `none` when one of them is malformed. -/
def Worksheet.read? (sheet : Worksheet) : Option (List (Placed Cell)) :=
  sheet.cells.mapM fun cell =>
    (Cell.ofStored? cell.content).map fun content => { cell with content }

/-- The cells found under a name. -/
def cellsNamed? (sheets : List Worksheet) (name : String) : Option (List (Placed Cell)) :=
  match sheets.find? fun sheet => sheet.name = name with
  | some sheet => sheet.read?
  | none => none

/-- The workbook of worksheets by their names, given the grid that is found under a name. If there
is none under some name, nothing is read. -/
def workbookOf (gridNamed? : String → Option (List (List Cell))) (names : List String) :
    Except Source.Fault Workbook :=
  match names.mapM fun name => (gridNamed? name).map (tableOfGrid name) with
  | some tables => .ok { tables }
  | none => .error .workbook

/-- The workbook of a workbook file. -/
def workbook (sheets : List Worksheet) : Except Source.Fault Workbook :=
  workbookOf (fun name => (cellsNamed? sheets name).map grid) (sheets.map Worksheet.name)

end Tabula.Sheet

import Tabula.Csv.Table
import Tabula.File.Tree

/-!
# Reading sources

A source is a workbook file or a delimited text, told apart by the extension of its path
in any case. A delimited text is a single table, named by the stem of its path.
-/

namespace Tabula.Source

/-- The format of a source. -/
inductive Format where
  | workbook
  | csv
deriving DecidableEq, Repr

/-- The format that the extension of a path names. -/
def Format.ofPath (path : String) : Except Fault Format :=
  let extension := String.ofList ((File.Path.extension path).toList.map Char.toLower)
  if extension = "xlsx" then .ok .workbook
  else if extension = "csv" then .ok .csv
  else .error (.extension extension)

/-- Reads the node found at a path as a workbook file. Whatever is no readable workbook
file fails alike. -/
def readWorkbook (found : Except File.Fault File.Node) : Except Fault Workbook :=
  match found with
  | .ok (.file (.workbook _ sheets)) => Sheet.workbook sheets
  | _ => .error .workbook

/-- Reads the node found at a path as a delimited text. A workbook file is packed and holds no
text. -/
def readCsv (dialect : Csv.Dialect) (path : String) (found : Except File.Fault File.Node) :
    Except Fault Workbook :=
  match found with
  | .error fault => .error (.file fault)
  | .ok (.file (.bytes data)) =>
      (Csv.table (File.Path.stem path) dialect data).map fun table => { tables := [table] }
  | .ok _ => .error .csv

/-- Reads what was found at a path into a workbook. -/
def read (dialect : Csv.Dialect) (path : String) (found : Except File.Fault File.Node) :
    Except Fault Workbook :=
  match Format.ofPath path with
  | .error fault => .error fault
  | .ok .workbook => readWorkbook found
  | .ok .csv => readCsv dialect path found

end Tabula.Source

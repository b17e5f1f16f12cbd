import Tabula.Value

/-!
# Workbooks

A workbook is a list of named tables, and a table is a list of rows. The fields of a
row follow the columns of its table; a column without a cell in a row is absent from
that row.
-/

namespace Tabula

/-- A named list of rows. -/
structure Table where
  name : String
  rows : List Fields
deriving DecidableEq

/-- The table of the objects among the given values; other values are no rows. -/
def Table.ofValues (name : String) (values : List Value) : Table :=
  { name, rows := values.filterMap Value.fields? }

/-- Tables in the order of their source. -/
structure Workbook where
  tables : List Table
deriving DecidableEq

namespace Workbook

/-- The table names in order. -/
def names (workbook : Workbook) : List String :=
  workbook.tables.map Table.name

/-- The first table with a given name. -/
def get? (workbook : Workbook) (name : String) : Option Table :=
  workbook.tables.find? fun table => table.name = name

/-- The number of tables. -/
def size (workbook : Workbook) : Nat :=
  workbook.tables.length

end Workbook

end Tabula

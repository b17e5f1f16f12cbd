import Tabula.File.Fault
import Tabula.Number.Decimal

/-!
# Faults of sources

The reasons for which a source file cannot be read into a workbook.
-/

namespace Tabula.Source

/-- Why a source has no workbook. -/
inductive Fault where
  /-- A workbook file cannot be read. -/
  | workbook
  /-- A delimited text cannot be read. -/
  | csv
  /-- The extension of a path, in lower case, is none of a known format. -/
  | extension (found : String)
  /-- A delimited text has more data records than allowed. -/
  | tooManyRows (limit actual : Nat)
  /-- The file cannot be opened. -/
  | file (fault : File.Fault)
deriving DecidableEq, Repr

/-- The wording of a fault. -/
def Fault.message : Fault → String
  | workbook => "Failed to read xlsx"
  | csv => "Failed to read csv"
  | extension found => s!"Unsupported input extension: '{found}' (expected xlsx or csv)"
  | tooManyRows limit actual =>
      s!"Security limit exceeded: row count {naturalText actual} " ++
        s!"exceeds maximum {naturalText limit}"
  | file fault => s!"I/O error: {fault.message}"

end Tabula.Source

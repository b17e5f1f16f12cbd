import Tabula.Key.Column
import Tabula.Number.Decimal

/-!
# Faults

The reasons for which a workbook has no documents. Each names the place it was found
at; the wording is in one function.
-/

namespace Tabula

/-- Why a workbook cannot be resolved. -/
inductive Fault where
  /-- A link key names a table that the workbook does not have. -/
  | unknownTarget (table key target : String)
  /-- A key holds more than one link delimiter before its options. -/
  | severalTargets (table key : String)
  /-- A link key does not say which field to match on. -/
  | noMatchOption (table key : String)
  /-- A patch table has more than one row. -/
  | severalPatchRows (table : String) (rows : Nat)
  /-- Two tables share a name. -/
  | repeatedTable (name : String)
deriving DecidableEq, Repr

/-- The fault of a malformed key, placed in its table. -/
def KeyFault.inTable (table key : String) : KeyFault → Fault
  | .noTarget text => .unknownTarget table key text
  | .severalTargets => .severalTargets table key
  | .noMatchOption => .noMatchOption table key

/-- The wording of a fault. -/
def Fault.message : Fault → String
  | unknownTarget table key target =>
      s!"Unknown reference target '{target}' in key '{key}' of table '{table}'"
  | severalTargets table key =>
      s!"Key '{key}' in table '{table}' references more than one table or is malformed"
  | noMatchOption table key =>
      s!"Key '{key}' in table '{table}' must carry a 'ref' option to reference another table"
  | severalPatchRows table rows =>
      s!"Override table '{table}' may hold a single row, found {naturalText rows}"
  | repeatedTable name => s!"Duplicate table name '{name}'"

end Tabula

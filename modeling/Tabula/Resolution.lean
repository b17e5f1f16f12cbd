import Tabula.Emission
import Tabula.Patching
import Tabula.Settling
import Tabula.Workbook

/-!
# Resolving a workbook

Tables are resolved in order, their rows in order, and the columns of a row in column
order: path columns move into nested objects and link columns embed rows of the tables
stored so far. Links to later tables, or to the table itself, wait until every table is
stored. Then the patches are applied and the artifacts emitted.
-/

namespace Tabula

/-- The tables stored so far and the columns that wait. -/
structure Progress where
  store : Store
  backlog : Backlog
deriving DecidableEq

namespace Progress

/-- Nothing stored and nothing waiting. -/
def start (rowsField : String) : Progress :=
  { store := { rowsField }, backlog := .empty }

/-- Resolves one column of a row. A key that an earlier column has taken out of the row
is passed over. -/
def resolveColumn (settings : Settings) (known : List String) (store : Store) (table : String)
    (state : Fields × Backlog) (key : String) : Except Fault (Fields × Backlog) :=
  let (record, backlog) := state
  if (Entries.get? record key).isNone then
    .ok state
  else
    match Column.ofKey settings.delimiters key with
    | .error fault => .error (fault.inTable table key)
    | .ok .plain => .ok state
    | .ok (.path segments) => .ok (Fields.unfold record key segments, backlog)
    | .ok (.link link) =>
        (link.resolveOrPostpone settings known store table key record backlog).map Prod.snd

/-- Resolves the columns of a row, in the order in which the row came with them. -/
def resolveRow (settings : Settings) (known : List String) (store : Store) (table : String)
    (backlog : Backlog) (row : Fields) : Except Fault (Fields × Backlog) :=
  (Entries.keys row).foldlM (resolveColumn settings known store table) (row, backlog)

/-- Resolves the rows of a table and stores them. -/
def resolveTable (settings : Settings) (known : List String) (progress : Progress)
    (table : Table) : Except Fault Progress :=
  (mapCarry (resolveRow settings known progress.store table.name) progress.backlog
    table.rows).map fun outcome =>
      { store := progress.store.putRows table.name (outcome.1.map .obj), backlog := outcome.2 }

/-- Settles the backlog and leaves it empty. -/
def settle (settings : Settings) (known : List String) (progress : Progress) :
    Progress × Except Fault Settlement :=
  let (store, settlement) := Backlog.settle settings known progress.backlog.entries progress.store
  ({ store, backlog := .empty }, settlement)

end Progress

/-- The result of resolving a workbook. -/
structure Publication where
  artifacts : List Artifact
  /-- The number of tables resolved. -/
  tables : Nat
  /-- What became of the links that had to wait. -/
  settlement : Settlement
  /-- The number of patches applied. -/
  patches : Nat
deriving DecidableEq

/-- The first name that occurs a second time, given the names before. -/
def firstRepeated? (before : List String) : List String → Option String
  | [] => none
  | name :: rest => if name ∈ before then some name else firstRepeated? (name :: before) rest

/-- Settles the backlog of a workbook with the given table names, applies the patches and
emits the artifacts. -/
def Progress.publish (settings : Settings) (names : List String) (progress : Progress) :
    Except Fault Publication :=
  match progress.settle settings names with
  | (_, .error fault) => .error fault
  | (settled, .ok settlement) =>
      match settled.store.applyPatches settings names with
      | (_, .error fault) => .error fault
      | (patched, .ok patches) =>
          .ok { artifacts := patched.artifacts settings names
                tables := names.length
                settlement
                patches }

namespace Workbook

/-- Resolves every table once, in order. -/
def resolveTables (settings : Settings) (workbook : Workbook) : Except Fault Progress :=
  workbook.tables.foldlM (Progress.resolveTable settings workbook.names)
    (Progress.start settings.rowsField)

/-- The artifacts of a workbook, or the first fault. Table names are checked before any row
is looked at. -/
def publish (settings : Settings) (workbook : Workbook) : Except Fault Publication :=
  match firstRepeated? [] workbook.names with
  | some name => .error (.repeatedTable name)
  | none =>
      match workbook.resolveTables settings with
      | .error fault => .error fault
      | .ok progress => progress.publish settings workbook.names

end Workbook

end Tabula

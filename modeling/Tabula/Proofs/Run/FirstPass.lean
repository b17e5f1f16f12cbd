import Tabula.Proofs.Row.Edit

/-!
# The first pass over a workbook

Every table is resolved against the tables before it. The pass fails with the fault of
the first faulty key of the workbook. Otherwise it stores every table, and its backlog
holds the links that lead forward: to the table of the link itself or to a later one.
-/

namespace Tabula

/-- The fault of the first faulty key of a table. -/
def Table.fault? (d : Delimiters) (known : List String) (table : Table) : Option Fault :=
  table.rows.findSome? (Fields.fault? d known table.name)

namespace Store

/-- Stores the rows of a table with the changes that their columns make. -/
def addTable (settings : Settings) (store : Store) (table : Table) : Store :=
  store.putRows table.name (table.rows.map fun row => .obj (store.applyColumns settings row))

/-- The columns of a table that have to wait, in row order. -/
def postponedIn (settings : Settings) (store : Store) (table : Table) : List Pending :=
  table.rows.flatMap (store.postponed settings table.name)

/-- The columns of tables that have to wait when the tables are stored one after another. -/
def postponedFrom (settings : Settings) (store : Store) : List Table → List Pending
  | [] => []
  | table :: rest =>
      store.postponedIn settings table ++
        postponedFrom settings (store.addTable settings table) rest

theorem rows?_addTable (settings : Settings) (store : Store) (table : Table) (name : String) :
    (store.addTable settings table).rows? name =
      if table.name = name then
        some (table.rows.map fun row => .obj (store.applyColumns settings row))
      else store.rows? name :=
  rows?_putRows store table.name name _

@[simp]
theorem rowsField_addTable (settings : Settings) (store : Store) (table : Table) :
    (store.addTable settings table).rowsField = store.rowsField :=
  rowsField_putRows store table.name _

theorem rows?_foldl_addTable_eq_none_iff {settings : Settings} {store : Store}
    {tables : List Table} {name : String} :
    (tables.foldl (addTable settings) store).rows? name = none ↔
      name ∉ tables.map Table.name ∧ store.rows? name = none := by
  induction tables generalizing store with
  | nil => simp
  | cons table rest ih =>
      rw [List.foldl_cons, ih, rows?_addTable, List.map_cons, List.mem_cons, not_or]
      by_cases same : table.name = name
      · simp [same]
      · simp [same, Ne.symm same]

/-- A stored table keeps its rows while tables with other names are stored. -/
theorem rows?_foldl_addTable_of_not_mem {settings : Settings} {store : Store}
    {tables : List Table} {name : String} (other : name ∉ tables.map Table.name) :
    (tables.foldl (addTable settings) store).rows? name = store.rows? name := by
  induction tables generalizing store with
  | nil => rfl
  | cons table rest ih =>
      rw [List.map_cons, List.mem_cons, not_or] at other
      rw [List.foldl_cons, ih other.2, rows?_addTable, if_neg (Ne.symm other.1)]

/-- What waits after tables have been stored are links of these tables. -/
theorem exists_of_mem_postponedFrom {settings : Settings} {store : Store} {tables : List Table}
    {entry : Pending} (waits : entry ∈ store.postponedFrom settings tables) :
    ∃ table ∈ tables, entry.table = table.name ∧
      ∃ row ∈ table.rows, entry.key ∈ Entries.keys row ∧
        ∃ link, Column.ofKey settings.delimiters entry.key = .ok (.link link) := by
  induction tables generalizing store with
  | nil => cases waits
  | cons table rest ih =>
      rw [postponedFrom, List.mem_append] at waits
      rcases waits with here | later
      · obtain ⟨row, rowMem, columnMem⟩ := List.mem_flatMap.mp here
        obtain ⟨key, keyMem, rfl⟩ := List.mem_map.mp columnMem
        obtain ⟨keyInRow, postpones⟩ := List.mem_filter.mp keyMem
        obtain ⟨link, read, _⟩ := postpones_eq_true_iff.mp postpones
        exact ⟨table, List.mem_cons_self, rfl, row, rowMem, keyInRow, link, read⟩
      · obtain ⟨other, otherMem, isLink⟩ := ih later
        exact ⟨other, List.mem_cons_of_mem table otherMem, isLink⟩

end Store

namespace Progress

/-- Stores one table without faulty keys. -/
def addTable (settings : Settings) (progress : Progress) (table : Table) : Progress :=
  { store := progress.store.addTable settings table
    backlog := progress.backlog.pushAll (progress.store.postponedIn settings table) }

theorem foldl_pushAll (entriesOf : Fields → List Pending) (backlog : Backlog)
    (rows : List Fields) :
    rows.foldl (fun waiting row => waiting.pushAll (entriesOf row)) backlog =
      backlog.pushAll (rows.flatMap entriesOf) := by
  induction rows generalizing backlog with
  | nil => rfl
  | cons row rest ih =>
      rw [List.foldl_cons, ih, List.flatMap_cons, Backlog.pushAll_append]

theorem resolveTable_eq (settings : Settings) (known : List String) (progress : Progress)
    (table : Table) :
    resolveTable settings known progress table =
      okUnless (table.fault? settings.delimiters known) (progress.addTable settings table) := by
  rw [resolveTable, mapCarry_eq_okUnless (fun _ row => resolveRow_eq row), map_okUnless,
    List.map_map, foldl_pushAll]
  rfl

theorem store_foldl_addTable (settings : Settings) (progress : Progress) (tables : List Table) :
    (tables.foldl (addTable settings) progress).store =
      tables.foldl (Store.addTable settings) progress.store := by
  induction tables generalizing progress with
  | nil => rfl
  | cons table rest ih => exact ih (progress.addTable settings table)

theorem backlog_foldl_addTable (settings : Settings) (progress : Progress)
    (tables : List Table) :
    (tables.foldl (addTable settings) progress).backlog =
      progress.backlog.pushAll (progress.store.postponedFrom settings tables) := by
  induction tables generalizing progress with
  | nil => rfl
  | cons table rest ih =>
      rw [List.foldl_cons, ih, Store.postponedFrom, Backlog.pushAll_append]
      rfl

end Progress

namespace Workbook

/-- The fault of the first faulty key of a workbook. -/
def keyFault? (settings : Settings) (workbook : Workbook) : Option Fault :=
  workbook.tables.findSome? (Table.fault? settings.delimiters workbook.names)

theorem keyFault?_eq_none_iff {settings : Settings} {workbook : Workbook} :
    workbook.keyFault? settings = none ↔
      ∀ table ∈ workbook.tables, ∀ row ∈ table.rows, ∀ key ∈ Entries.keys row,
        Column.fault? settings.delimiters workbook.names table.name key = none := by
  simp only [keyFault?, Table.fault?, Fields.fault?, List.findSome?_eq_none_iff]

/-- The tables of a workbook, all of them stored, and the columns that wait. -/
def firstPass (settings : Settings) (workbook : Workbook) : Progress :=
  workbook.tables.foldl (Progress.addTable settings) (Progress.start settings.rowsField)

/-- The first pass fails with the fault of the first faulty key, and otherwise stores every
table. -/
theorem resolveTables_eq (settings : Settings) (workbook : Workbook) :
    workbook.resolveTables settings =
      okUnless (workbook.keyFault? settings) (workbook.firstPass settings) :=
  foldlM_eq_okUnless (Progress.resolveTable_eq settings workbook.names) _ _

theorem store_firstPass (settings : Settings) (workbook : Workbook) :
    (workbook.firstPass settings).store =
      workbook.tables.foldl (Store.addTable settings) { rowsField := settings.rowsField } :=
  Progress.store_foldl_addTable settings _ _

theorem entries_firstPass (settings : Settings) (workbook : Workbook) :
    (workbook.firstPass settings).backlog.entries =
      (Store.postponedFrom settings { rowsField := settings.rowsField }
        workbook.tables).eraseDups := by
  rw [firstPass, Progress.backlog_foldl_addTable]
  exact Backlog.entries_pushAll_empty _

theorem exists_rows?_firstPass {settings : Settings} {workbook : Workbook} {name : String}
    (known : name ∈ workbook.names) :
    ∃ rows, (workbook.firstPass settings).store.rows? name = some rows := by
  rw [← Option.ne_none_iff_exists', store_firstPass, ne_eq,
    Store.rows?_foldl_addTable_eq_none_iff]
  exact fun both => both.1 known

/-- What waits after the first pass are links of the workbook. -/
theorem exists_of_mem_entries_firstPass {settings : Settings} {workbook : Workbook}
    {entry : Pending} (waits : entry ∈ (workbook.firstPass settings).backlog.entries) :
    ∃ table ∈ workbook.tables, entry.table = table.name ∧
      ∃ row ∈ table.rows, entry.key ∈ Entries.keys row ∧
        ∃ link, Column.ofKey settings.delimiters entry.key = .ok (.link link) := by
  rw [entries_firstPass, List.mem_eraseDups] at waits
  exact Store.exists_of_mem_postponedFrom waits

end Workbook

end Tabula

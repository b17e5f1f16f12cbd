import Tabula.Proofs.Run.Settling

/-!
# The outcome of a run

A run is decided by three checks in a row: for repeated names, for faulty keys, and for
patch tables with several rows. Between the last two every table has been stored and
every pending column has been settled, whatever the columns are.
-/

namespace Tabula

theorem firstRepeated?_eq_none_iff {before names : List String} :
    firstRepeated? before names = none ↔ names.Nodup ∧ ∀ name ∈ names, name ∉ before := by
  induction names generalizing before with
  | nil => simp [firstRepeated?]
  | cons name rest ih =>
      rw [firstRepeated?]
      by_cases repeated : name ∈ before
      · simp [repeated]
      · rw [if_neg repeated, ih, List.nodup_cons]
        constructor
        · rintro ⟨unique, fresh⟩
          constructor
          · exact ⟨fun again => fresh name again List.mem_cons_self, unique⟩
          · intro other member
            rcases List.mem_cons.mp member with rfl | later
            · exact repeated
            · exact fun early => fresh other later (List.mem_cons_of_mem name early)
        · rintro ⟨⟨once, unique⟩, fresh⟩
          constructor
          · exact unique
          · intro other later early
            rcases List.mem_cons.mp early with rfl | early
            · exact once later
            · exact fresh other (List.mem_cons_of_mem name later) early

namespace Workbook

variable {settings : Settings} {workbook : Workbook}

/-- The store once every table has been resolved and every pending column settled. -/
def settledStore (settings : Settings) (workbook : Workbook) : Store :=
  (workbook.firstPass settings).backlog.entries.foldl (Store.settleColumn settings)
    (workbook.firstPass settings).store

section Induction

variable {good : Store → Prop}

/-- What an empty store has, and what storing a table keeps, holds after any of the tables
have been stored. -/
theorem foldl_addTable_induction {tables : List Table}
    (start : good { rowsField := settings.rowsField })
    (stored : ∀ store, ∀ table ∈ tables, good store → good (store.addTable settings table)) :
    good (tables.foldl (Store.addTable settings) { rowsField := settings.rowsField }) :=
  List.foldlRecOn tables (Store.addTable settings) start
    fun store isGood table member => stored store table member isGood

/-- If settling a pending column keeps it as well, it holds at the end of the run. -/
theorem settledStore_induction (start : good { rowsField := settings.rowsField })
    (stored : ∀ store, ∀ table ∈ workbook.tables, good store →
      good (store.addTable settings table))
    (settled : ∀ store, ∀ entry ∈ (workbook.firstPass settings).backlog.entries, good store →
      good (store.settleColumn settings entry)) :
    good (workbook.settledStore settings) := by
  rw [settledStore, store_firstPass]
  exact List.foldlRecOn (workbook.firstPass settings).backlog.entries
    (Store.settleColumn settings) (foldl_addTable_induction start stored)
    fun store isGood entry member => settled store entry member isGood

end Induction

/-- Without faulty keys, every column that waits after the first pass can be settled. -/
theorem settles_firstPass (faultless : workbook.keyFault? settings = none) :
    ∀ entry ∈ (workbook.firstPass settings).backlog.entries,
      Store.Settles settings workbook.names (workbook.firstPass settings).store entry := by
  intro entry waits
  obtain ⟨table, tableMem, sameTable, row, rowMem, keyMem, link, read⟩ :=
    exists_of_mem_entries_firstPass waits
  have keyFaultless :=
    keyFault?_eq_none_iff.mp faultless table tableMem row rowMem entry.key keyMem
  have target := Column.mem_of_fault?_eq_none keyFaultless read
  have own : entry.table ∈ workbook.names := by
    rw [sameTable]
    exact List.mem_map_of_mem tableMem
  exact ⟨⟨link, read, target, exists_rows?_firstPass target⟩, exists_rows?_firstPass own⟩

/-- The pass over the backlog settles all of it. -/
theorem settle_firstPass (faultless : workbook.keyFault? settings = none) :
    (workbook.firstPass settings).settle settings workbook.names =
      ({ store := workbook.settledStore settings, backlog := .empty },
        .ok { settled := (workbook.firstPass settings).backlog.entries }) := by
  rw [Progress.settle, Backlog.settle_eq (settles_firstPass faultless)]
  rfl

/-- The tables that stand before the table with a given name. -/
def tablesBefore (workbook : Workbook) (name : String) : List Table :=
  workbook.tables.takeWhile fun table => table.name ≠ name

/-- The store that a table is resolved against in the first pass. -/
def storedBefore (settings : Settings) (workbook : Workbook) (name : String) : Store :=
  (workbook.tablesBefore name).foldl (Store.addTable settings)
    { rowsField := settings.rowsField }

/-- A row as a run resolves it: in the first pass with the tables before its own stored, and
then by the columns of the backlog that belong to its table. -/
def resolvedRow (settings : Settings) (workbook : Workbook) (name : String) (row : Fields) :
    Fields :=
  Store.settledRow settings name (workbook.firstPass settings).backlog.entries
    (workbook.firstPass settings).store
    ((workbook.storedBefore settings name).applyColumns settings row)

/-- A table divides the workbook into the tables before it and those behind it. -/
theorem exists_tables_eq {table : Table} (unique : workbook.names.Nodup)
    (member : table ∈ workbook.tables) :
    ∃ after, workbook.tables = workbook.tablesBefore table.name ++ table :: after ∧
      table.name ∉ after.map Table.name := by
  obtain ⟨before, after, tablesEq⟩ := List.append_of_mem member
  rw [names, tablesEq, List.map_append, List.map_cons, List.nodup_append] at unique
  obtain ⟨_, behindUnique, apart⟩ := unique
  have others : ∀ other ∈ before, (decide (other.name ≠ table.name)) = true := by
    intro other otherMem
    rw [decide_eq_true_iff]
    exact apart _ (List.mem_map_of_mem otherMem) _ List.mem_cons_self
  have beforeEq : workbook.tablesBefore table.name = before := by
    rw [tablesBefore, tablesEq, List.takeWhile_append_of_pos others]
    simp
  exact ⟨after, by rw [beforeEq, tablesEq], (List.nodup_cons.mp behindUnique).1⟩

/-- After the first pass every table has its rows, resolved with the tables before it stored. -/
theorem rows?_firstPass {table : Table} (unique : workbook.names.Nodup)
    (member : table ∈ workbook.tables) :
    (workbook.firstPass settings).store.rows? table.name =
      some ((table.rows.map
        ((workbook.storedBefore settings table.name).applyColumns settings)).map .obj) := by
  obtain ⟨after, tablesEq, notLater⟩ := exists_tables_eq unique member
  rw [store_firstPass, tablesEq, List.foldl_append, List.foldl_cons,
    Store.rows?_foldl_addTable_of_not_mem notLater, Store.rows?_addTable, if_pos rfl,
    List.map_map]
  rfl

/-- Every table keeps its rows: each is resolved in its place. -/
theorem rows?_settledStore {table : Table} (unique : workbook.names.Nodup)
    (member : table ∈ workbook.tables) :
    (workbook.settledStore settings).rows? table.name =
      some (table.rows.map fun row => .obj (workbook.resolvedRow settings table.name row)) := by
  rw [settledStore, Store.rows?_foldl_settleColumn (rows?_firstPass unique member), List.map_map]
  rfl

/-- What a run yields, by the checks that it makes. -/
theorem publish_eq (settings : Settings) (workbook : Workbook) :
    workbook.publish settings =
      match firstRepeated? [] workbook.names with
      | some name => .error (.repeatedTable name)
      | none =>
          match workbook.keyFault? settings with
          | some fault => .error fault
          | none =>
              match (workbook.settledStore settings).applyPatches settings workbook.names with
              | (_, .error fault) => .error fault
              | (patched, .ok patches) =>
                  .ok { artifacts := patched.artifacts settings workbook.names
                        tables := workbook.names.length
                        settlement := { settled := (workbook.firstPass settings).backlog.entries }
                        patches } := by
  rw [publish, resolveTables_eq]
  cases firstRepeated? [] workbook.names with
  | some name => rfl
  | none =>
      dsimp only
      cases faultless : workbook.keyFault? settings with
      | some fault => rfl
      | none =>
          have settled := settle_firstPass faultless
          cases outcome : (workbook.settledStore settings).applyPatches settings workbook.names with
          | mk patched counted =>
              cases counted with
              | error fault => simp only [okUnless_none, Progress.publish, settled, outcome]
              | ok patches => simp only [okUnless_none, Progress.publish, settled, outcome]

/-- A run that succeeds has passed all the checks. -/
theorem publish_eq_ok {publication : Publication}
    (published : workbook.publish settings = .ok publication) :
    workbook.names.Nodup ∧ workbook.keyFault? settings = none ∧
      ∃ patched patches,
        (workbook.settledStore settings).applyPatches settings workbook.names =
          (patched, .ok patches) ∧
        publication =
          { artifacts := patched.artifacts settings workbook.names
            tables := workbook.names.length
            settlement := { settled := (workbook.firstPass settings).backlog.entries }
            patches } := by
  rw [publish_eq] at published
  cases unique : firstRepeated? [] workbook.names with
  | some name =>
      rw [unique] at published
      cases published
  | none =>
      cases faultless : workbook.keyFault? settings with
      | some fault =>
          rw [unique, faultless] at published
          cases published
      | none =>
          rw [unique, faultless] at published
          refine ⟨(firstRepeated?_eq_none_iff.mp unique).1, rfl, ?_⟩
          cases outcome : (workbook.settledStore settings).applyPatches settings workbook.names with
          | mk patched counted =>
              rw [outcome] at published
              cases counted with
              | error fault => cases published
              | ok patches =>
                  cases published
                  exact ⟨patched, patches, rfl, rfl⟩

end Workbook

end Tabula

import Tabula.Proofs.Run.Outcome

/-!
# Histories of a row

During a run a row is changed by one column after another, each working on what the
columns before it left: first the columns of the row itself, except for those that wait,
and then the columns of the backlog that belong to its table. A history lists the columns
that have been applied. At the end of a run every column of the row is among them.
-/

namespace Tabula

/-- A record to which a row has come by applying the given columns, each of them ready in
the store it was resolved against, and all these stores in `good`. -/
inductive Reached (settings : Settings) (good : Store → Prop) (row : Fields) :
    List String → Fields → Prop where
  | start : Reached settings good row [] row
  | step {applied : List String} {record : Fields} {store : Store} {key : String} :
      Reached settings good row applied record → good store →
        store.postpones settings key = false →
          Reached settings good row (applied ++ [key]) (store.applyColumn settings record key)

namespace Reached

variable {settings : Settings} {good : Store → Prop} {row record : Fields}
  {applied : List String}

/-- Applying a series of columns to one store adds those that do not wait to the history. -/
theorem foldl {store : Store} (reached : Reached settings good row applied record)
    (isGood : good store) (columns : List String) :
    Reached settings good row
      (applied ++ columns.filter fun key => !store.postpones settings key)
      (columns.foldl (store.applyColumn settings) record) := by
  induction columns generalizing applied record with
  | nil => simpa using reached
  | cons key rest ih =>
      rw [List.foldl_cons, List.filter_cons]
      cases waits : store.postpones settings key with
      | true =>
          rw [Store.applyColumn_of_postpones waits]
          simpa using ih reached
      | false => simpa using ih (reached.step isGood waits)

/-- Settling adds the pending columns of the table to the history. -/
theorem settledRow {known : List String} {table : String} {pending : List Pending}
    {store : Store} (reached : Reached settings good row applied record) (isGood : good store)
    (kept : ∀ store, ∀ entry ∈ pending, good store → good (store.settleColumn settings entry))
    (ready : ∀ entry ∈ pending, Store.Settles settings known store entry) :
    Reached settings good row
      (applied ++ (pending.filter fun entry => entry.table = table).map Pending.key)
      (Store.settledRow settings table pending store record) := by
  induction pending generalizing applied record store with
  | nil => simpa [Store.settledRow] using reached
  | cons entry rest ih =>
      have goodNext := kept store entry List.mem_cons_self isGood
      have restKept : ∀ store, ∀ other ∈ rest, good store →
          good (store.settleColumn settings other) :=
        fun store other member => kept store other (List.mem_cons_of_mem entry member)
      have restReady : ∀ other ∈ rest,
          Store.Settles settings known (store.settleColumn settings entry) other :=
        fun other member => (ready other (List.mem_cons_of_mem entry member)).step
      rw [Store.settledRow, List.filter_cons]
      by_cases same : entry.table = table
      · have here := reached.step isGood (ready entry List.mem_cons_self).postpones_eq_false
        simpa [same] using ih here goodNext restKept restReady
      · simpa [same] using ih reached goodNext restKept restReady

/-- A history repeats no name that the row does not repeat. -/
theorem distinct (distinct : Entries.Distinct row)
    (reached : Reached settings good row applied record) : Entries.Distinct record := by
  induction reached with
  | start => exact distinct
  | step _ _ _ ih => exact Store.distinct_applyColumn ih

end Reached

namespace Store

theorem postponedFrom_append (settings : Settings) (store : Store) (first second : List Table) :
    store.postponedFrom settings (first ++ second) =
      store.postponedFrom settings first ++
        (first.foldl (addTable settings) store).postponedFrom settings second := by
  induction first generalizing store with
  | nil => rfl
  | cons table rest ih =>
      rw [List.cons_append, postponedFrom, postponedFrom, ih, List.append_assoc, List.foldl_cons]

end Store

namespace Workbook

variable {settings : Settings} {workbook : Workbook} {table : Table} {row : Fields}

/-- The columns applied to a row during a run: its own columns that do not wait, and then
the columns of the backlog that belong to its table. -/
def history (settings : Settings) (workbook : Workbook) (name : String) (row : Fields) :
    List String :=
  ((Entries.keys row).filter fun key =>
      !(workbook.storedBefore settings name).postpones settings key) ++
    ((workbook.firstPass settings).backlog.entries.filter fun entry =>
      entry.table = name).map Pending.key

/-- A column that waits in the first pass is on the backlog. -/
theorem mem_entries_firstPass {key : String} (unique : workbook.names.Nodup)
    (tableMem : table ∈ workbook.tables) (rowMem : row ∈ table.rows)
    (keyMem : key ∈ Entries.keys row)
    (waits : (workbook.storedBefore settings table.name).postpones settings key = true) :
    (⟨table.name, key⟩ : Pending) ∈ (workbook.firstPass settings).backlog.entries := by
  obtain ⟨after, tablesEq, _⟩ := exists_tables_eq unique tableMem
  have here : (⟨table.name, key⟩ : Pending) ∈
      (workbook.storedBefore settings table.name).postponedIn settings table := by
    apply List.mem_flatMap.mpr
    exact ⟨row, rowMem, List.mem_map_of_mem (List.mem_filter.mpr ⟨keyMem, waits⟩)⟩
  rw [entries_firstPass, List.mem_eraseDups, tablesEq, Store.postponedFrom_append,
    Store.postponedFrom]
  exact List.mem_append_right _ (List.mem_append_left _ here)

/-- No column of a row is forgotten: what is not applied at once is applied later. -/
theorem mem_history (unique : workbook.names.Nodup) (tableMem : table ∈ workbook.tables)
    (rowMem : row ∈ table.rows) {key : String} (keyMem : key ∈ Entries.keys row) :
    key ∈ workbook.history settings table.name row := by
  rw [history, List.mem_append]
  cases waits : (workbook.storedBefore settings table.name).postpones settings key with
  | false =>
      left
      apply List.mem_filter.mpr
      exact ⟨keyMem, by rw [waits]; rfl⟩
  | true =>
      right
      have entryMem := mem_entries_firstPass unique tableMem rowMem keyMem waits
      apply List.mem_map.mpr
      exact ⟨⟨table.name, key⟩, List.mem_filter.mpr ⟨entryMem, decide_eq_true rfl⟩, rfl⟩

/-- Paths never wait, so they are applied in column order. -/
theorem filter_isPath_history (settings : Settings) (workbook : Workbook) (name : String)
    (row : Fields) :
    (workbook.history settings name row).filter (Column.isPath settings.delimiters) =
      (Entries.keys row).filter (Column.isPath settings.delimiters) := by
  have laterLinks : (((workbook.firstPass settings).backlog.entries.filter
      fun entry => entry.table = name).map Pending.key).filter
        (Column.isPath settings.delimiters) = [] := by
    rw [List.filter_eq_nil_iff]
    intro key keyMem
    obtain ⟨entry, entryMem, rfl⟩ := List.mem_map.mp keyMem
    obtain ⟨_, _, _, _, _, _, link, read⟩ :=
      exists_of_mem_entries_firstPass (List.mem_filter.mp entryMem).1
    rw [Column.isPath_eq_false_of_link read]
    exact Bool.false_ne_true
  rw [history, List.filter_append, laterLinks, List.append_nil, List.filter_filter]
  apply List.filter_congr
  intro key _
  cases waits : (workbook.storedBefore settings name).postpones settings key with
  | false => simp
  | true =>
      obtain ⟨link, read, _⟩ := Store.postpones_eq_true_iff.mp waits
      rw [Column.isPath_eq_false_of_link read, Bool.false_and]

/-- A resolved row has come about by its history. The stores it was resolved against have
every property that an empty store has and that storing a table or settling a column of the
backlog keeps. -/
theorem reached_resolvedRow {good : Store → Prop} (faultless : workbook.keyFault? settings = none)
    (start : good { rowsField := settings.rowsField })
    (stored : ∀ store, ∀ table ∈ workbook.tables, good store →
      good (store.addTable settings table))
    (settled : ∀ store, ∀ entry ∈ (workbook.firstPass settings).backlog.entries, good store →
      good (store.settleColumn settings entry)) (name : String) (row : Fields) :
    Reached settings good row (workbook.history settings name row)
      (workbook.resolvedRow settings name row) := by
  have goodBefore : good (workbook.storedBefore settings name) := by
    apply foldl_addTable_induction start
    intro store other otherMem
    exact stored store other ((List.takeWhile_sublist _).subset otherMem)
  have goodAfter : good (workbook.firstPass settings).store := by
    rw [store_firstPass]
    exact foldl_addTable_induction start stored
  have first : Reached settings good row _
      ((workbook.storedBefore settings name).applyColumns settings row) :=
    Reached.start.foldl goodBefore (Entries.keys row)
  exact first.settledRow goodAfter settled (settles_firstPass faultless)

end Workbook

end Tabula

import Mathlib.Data.List.Nodup
import Mathlib.Data.List.Perm.Basic
import Tabula.Proofs.Row.Lookups
import Tabula.Proofs.Run.Forward
import Tabula.Proofs.Run.SideBySide

/-!
# What a row owes to its siblings

The columns of a table that wait stand on the backlog in the order in which its rows first
carry them, and they are settled in this order in every row. So a row of a table that
nothing refers to is resolved as if it were alone, except that the siblings may change the
order in which its waiting links are settled.
-/

namespace Tabula

/-- The link keys of a table that lead forward, each once, in the order in which its rows
first carry them. -/
def Table.waitingKeys (d : Delimiters) (names : List String) (table : Table) : List String :=
  (table.forwardLinks d names).eraseDups.map Pending.key

/-- The table with one row alone. -/
def Table.only (table : Table) (row : Fields) : Table :=
  { table with rows := [row] }

/-- A row whose own waiting links set different fields, read nothing but their own cells, and
are out of the way of the row's paths, as is whatever else waits of its table. -/
structure Fields.WaitsApart (d : Delimiters) (row : Fields) (own waiting : List String) :
    Prop where
  distinct : Entries.Distinct row
  fieldsApart : Column.FieldsApart d own
  free : ∀ key ∈ own, FreeLink d row key
  notRoots : ∀ key ∈ waiting, key ∉ roots d row

namespace Store

variable {settings : Settings} {name : String} {store other : Store} {record : Fields}

/-! ### Settling in parts -/

theorem settledRow_append (first second : List Pending) :
    settledRow settings name (first ++ second) store record =
      settledRow settings name second (first.foldl (settleColumn settings) store)
        (settledRow settings name first store record) := by
  induction first generalizing store record with
  | nil => rfl
  | cons entry rest ih =>
      rw [List.cons_append, settledRow, ih, List.foldl_cons, settledRow]

/-- The columns of other tables do not change a row. -/
theorem settledRow_of_foreign {pending : List Pending}
    (foreign : ∀ entry ∈ pending, entry.table ≠ name) :
    settledRow settings name pending store record = record := by
  induction pending generalizing store with
  | nil => rfl
  | cons entry rest ih =>
      rw [List.forall_mem_cons] at foreign
      rw [settledRow, if_neg foreign.1, ih foreign.2]

/-- The columns of a table that do not lead to the table itself find the same stored rows, one
after the other. -/
theorem settledRow_of_own {pending : List Pending}
    (own : ∀ entry ∈ pending, entry.table = name)
    (sees : ∀ entry ∈ pending, Column.SeesThrough settings name nothing entry.key)
    (alike : Alike name nothing store other) :
    settledRow settings name pending store record =
      (pending.map Pending.key).foldl (other.applyColumn settings) record := by
  induction pending generalizing store record with
  | nil => rfl
  | cons entry rest ih =>
      rw [List.forall_mem_cons] at own sees
      rw [settledRow, if_pos own.1, List.map_cons, List.foldl_cons,
        alike.applyColumn_eq sees.1]
      exact ih own.2 sees.2 ((alike_settleColumn settings store own.1).trans alike)

/-! ### What waits of one table -/

variable {table : Table} {key : String}

theorem mem_waitingFrom_singleton :
    key ∈ (store.waitingFrom settings [table]).map Pending.key ↔
      ∃ row ∈ table.rows, key ∈ Entries.keys row ∧ store.postpones settings key = true := by
  simp [waitingFrom, postponedFrom, postponedIn, postponed]

theorem nodup_waitingFrom_singleton :
    ((store.waitingFrom settings [table]).map Pending.key).Nodup := by
  have own := table_eq_of_mem_waitingFrom settings store
    (List.forall_mem_singleton.mpr (rfl : table.name = table.name))
  apply List.Nodup.map_on
  · intro entry waits otherEntry otherWaits sameKey
    have sameTable := (own entry waits).trans (own otherEntry otherWaits).symm
    exact congrArg₂ Pending.mk sameTable sameKey
  · rw [waitingFrom, ← Backlog.entries_pushAll_empty]
    exact (Backlog.empty.pushAll _).nodup

theorem isLink_of_mem_waitingFrom :
    ∀ key ∈ (store.waitingFrom settings [table]).map Pending.key,
      Column.isLink settings.delimiters key = true := by
  intro key waits
  obtain ⟨_, _, _, postpones⟩ := mem_waitingFrom_singleton.mp waits
  obtain ⟨link, read, _⟩ := postpones_eq_true_iff.mp postpones
  exact Column.isLink_eq_true_iff.mpr ⟨link, read⟩

variable {later : Store} {row : Fields}

/-- What waits of its siblings alone does not change a row, as long as the rest waits in the
same order. -/
theorem foldl_waitingFrom_eq
    (sameOrder : ((store.waitingFrom settings [table]).map Pending.key).filter
        (· ∈ Entries.keys row ++ Fields.roots settings.delimiters row) =
      (store.waitingFrom settings [table.only row]).map Pending.key) :
    ((store.waitingFrom settings [table]).map Pending.key).foldl (later.applyColumn settings)
        (store.applyColumns settings row) =
      ((store.waitingFrom settings [table.only row]).map Pending.key).foldl
        (later.applyColumn settings) (store.applyColumns settings row) := by
  rw [foldl_applyColumn_filter isLink_of_mem_waitingFrom (linkKeysAmong_applyColumns row),
    sameOrder]

/-- Links that stay out of each other's way can wait in any order. -/
theorem foldl_waitingFrom_perm (rowMem : row ∈ table.rows)
    (apart : Fields.WaitsApart settings.delimiters row
      ((store.waitingFrom settings [table.only row]).map Pending.key)
      ((store.waitingFrom settings [table]).map Pending.key)) :
    (((store.waitingFrom settings [table]).map Pending.key).foldl (later.applyColumn settings)
        (store.applyColumns settings row)).Perm
      (((store.waitingFrom settings [table.only row]).map Pending.key).foldl
        (later.applyColumn settings) (store.applyColumns settings row)) := by
  -- The siblings change the order in which the row's columns wait, not which of them do.
  have samePending : ((store.waitingFrom settings [table.only row]).map Pending.key).Perm
      (((store.waitingFrom settings [table]).map Pending.key).filter
        (· ∈ Entries.keys row ++ Fields.roots settings.delimiters row)) := by
    rw [List.perm_ext_iff_of_nodup nodup_waitingFrom_singleton
      (nodup_waitingFrom_singleton.filter _)]
    intro key
    rw [List.mem_filter, decide_eq_true_iff, List.mem_append, mem_waitingFrom_singleton]
    constructor
    · rintro ⟨own, ownMem, keyMem, postpones⟩
      obtain rfl := List.mem_singleton.mp ownMem
      exact ⟨mem_waitingFrom_singleton.mpr ⟨own, rowMem, keyMem, postpones⟩, Or.inl keyMem⟩
    · rintro ⟨waits, inside⟩
      obtain ⟨_, _, _, postpones⟩ := mem_waitingFrom_singleton.mp waits
      exact ⟨row, List.mem_cons_self, inside.resolve_right (apart.notRoots key waits), postpones⟩
  -- The first pass has not touched the cells that wait.
  have freeAtStart : ∀ key ∈ (store.waitingFrom settings [table.only row]).map Pending.key,
      Fields.FreeLink settings.delimiters (store.applyColumns settings row) key := by
    intro key waits
    obtain ⟨link, read, optionsFree, cellFree⟩ := apart.free key waits
    have notRoot := apart.notRoots key (List.mem_of_mem_filter (samePending.mem_iff.mp waits))
    obtain ⟨_, _, _, postpones⟩ := mem_waitingFrom_singleton.mp waits
    refine ⟨link, read, optionsFree, fun cell found => cellFree cell ?_⟩
    rwa [get?_applyColumns_of_postpones postpones notRoot] at found
  rw [foldl_applyColumn_filter isLink_of_mem_waitingFrom (linkKeysAmong_applyColumns row)]
  exact (foldl_applyColumn_perm samePending freeAtStart apart.fieldsApart
    (distinct_foldl_applyColumn apart.distinct)).symm

end Store

namespace Workbook

variable {settings : Settings} {workbook other : Workbook} {before after : List Table}
  {table changed : Table}

/-- With the tables in front stored, the columns of a table that wait are its links that lead
forward. -/
theorem waitingFrom_storeAfter
    (tablesEq : workbook.tables = before ++ [table] ++ after) (unique : workbook.names.Nodup)
    (faultless : workbook.keyFault? settings = none) :
    ((storeAfter settings before).waitingFrom settings [table]).map Pending.key =
      table.waitingKeys settings.delimiters workbook.names := by
  have namesEq : workbook.names =
      before.map Table.name ++ table.name :: after.map Table.name := by
    simp [names, tablesEq]
  have fresh : table.name ∉ before.map Table.name := by
    rw [List.mem_map]
    rintro ⟨other, otherMem, same⟩
    exact apart_of_tables_eq unique tablesEq other (List.mem_append_left after otherMem) same
  have stored : ∀ name, (storeAfter settings before).rows? name = none ↔
      name ∉ before.map Table.name := by
    intro name
    rw [storeAfter, Store.rows?_foldl_addTable_eq_none_iff]
    exact and_iff_left rfl
  have tableFaultless : table.fault? settings.delimiters workbook.names = none :=
    List.findSome?_eq_none_iff.mp faultless table (by simp [tablesEq])
  rw [Store.waitingFrom, Store.postponedFrom, Store.postponedFrom, List.append_nil,
    Store.postponedIn_eq_forwardLinks namesEq fresh stored tableFaultless]
  rfl

theorem tablesBefore_eq (tablesEq : workbook.tables = before ++ [table] ++ after)
    (unique : workbook.names.Nodup) : workbook.tablesBefore table.name = before := by
  have apart : ∀ other ∈ before, (decide (other.name ≠ table.name)) = true := by
    intro other otherMem
    simpa using apart_of_tables_eq unique tablesEq other (List.mem_append_left after otherMem)
  rw [tablesBefore, tablesEq, List.append_assoc, List.takeWhile_append_of_pos apart]
  simp

/-- A row of a table that does not look at itself is resolved by the waiting columns of its
table, against a store that settling them does not change to the eye. -/
theorem resolvedRow_eq_foldl {front back : List Pending} {store : Store}
    (tablesEq : workbook.tables = before ++ [table] ++ after) (unique : workbook.names.Nodup)
    (entries : (workbook.firstPass settings).backlog.entries =
      front ++ (storeAfter settings before).waitingFrom settings [table] ++ back)
    (foreign : ∀ entry ∈ front ++ back, entry.table ≠ table.name)
    (avoids : table.Avoids settings table.name)
    (alike : Store.Alike table.name Store.nothing
      (front.foldl (Store.settleColumn settings) (workbook.firstPass settings).store) store)
    (row : Fields) :
    workbook.resolvedRow settings table.name row =
      (((storeAfter settings before).waitingFrom settings [table]).map Pending.key).foldl
        (store.applyColumn settings) ((storeAfter settings before).applyColumns settings row) := by
  obtain ⟨foreignFront, foreignBack⟩ := List.forall_mem_append.mp foreign
  rw [resolvedRow, storedBefore, tablesBefore_eq tablesEq unique, entries,
    Store.settledRow_append, Store.settledRow_append, Store.settledRow_of_foreign foreignBack,
    Store.settledRow_of_foreign foreignFront]
  apply Store.settledRow_of_own
  · exact Store.table_eq_of_mem_waitingFrom settings _ (List.forall_mem_singleton.mpr rfl)
  · intro entry waits
    rw [Store.waitingFrom, List.mem_eraseDups] at waits
    exact Store.seesThrough_of_mem_postponedFrom
      (List.forall_mem_singleton.mpr avoids.seesThrough) waits
  · exact alike

/-- In both of two runs a row of a table that nothing looks at is resolved against the same
store, by the waiting columns of the table in each. -/
theorem SideBySide.exists_resolvedRow_eq
    (pair : SideBySide settings table.name Store.nothing workbook other before [table] [changed]
      after)
    (unique : workbook.names.Nodup) (otherUnique : other.names.Nodup)
    (avoids : table.Avoids settings table.name)
    (changedAvoids : changed.Avoids settings table.name) :
    ∃ store : Store, ∀ row,
      workbook.resolvedRow settings table.name row =
          (((storeAfter settings before).waitingFrom settings [table]).map Pending.key).foldl
            (store.applyColumn settings) ((storeAfter settings before).applyColumns settings row) ∧
        other.resolvedRow settings table.name row =
          (((storeAfter settings before).waitingFrom settings [changed]).map Pending.key).foldl
            (store.applyColumn settings)
            ((storeAfter settings before).applyColumns settings row) := by
  obtain ⟨front, back, entries, otherEntries, sees⟩ := pair.exists_entries_eq
  have foreign := fun entry entryMem => (sees entry entryMem).1
  have afterFront := pair.alike_firstPass.foldl_settleColumn
    (fun entry entryMem => foreign entry (List.mem_append_left back entryMem))
    (fun entry entryMem => (sees entry (List.mem_append_left back entryMem)).2)
  have changedName : changed.name = table.name := pair.otherOwn changed List.mem_cons_self
  refine ⟨_, fun row => ⟨resolvedRow_eq_foldl pair.tables unique entries foreign avoids
    (Store.Alike.refl _ _ _) row, ?_⟩⟩
  rw [← changedName] at foreign changedAvoids afterFront ⊢
  exact resolvedRow_eq_foldl pair.otherTables otherUnique otherEntries foreign changedAvoids
    afterFront.symm row

/-- The workbook with other rows in the tables of one name. -/
def withRows (workbook : Workbook) (name : String) (rows : List Fields) : Workbook :=
  { tables := workbook.tables.map fun table =>
      if table.name = name then { table with rows } else table }

theorem names_withRows (workbook : Workbook) (name : String) (rows : List Fields) :
    (workbook.withRows name rows).names = workbook.names := by
  rw [names, names, withRows, List.map_map]
  apply List.map_congr_left
  intro table _
  rw [Function.comp_apply]
  split <;> rfl

theorem tables_withRows (tablesEq : workbook.tables = before ++ [table] ++ after)
    (apart : ∀ other ∈ before ++ after, other.name ≠ table.name) (rows : List Fields) :
    (workbook.withRows table.name rows).tables = before ++ [{ table with rows }] ++ after := by
  have keep : ∀ tables : List Table, (∀ other ∈ tables, other.name ≠ table.name) →
      (tables.map fun other => if other.name = table.name then { other with rows } else other) =
        tables := by
    intro tables differ
    conv => rhs; rw [← List.map_id tables]
    exact List.map_congr_left fun other otherMem => if_neg (differ other otherMem)
  obtain ⟨apartBefore, apartAfter⟩ := List.forall_mem_append.mp apart
  rw [withRows, tablesEq, List.map_append, List.map_append, keep before apartBefore,
    keep after apartAfter]
  simp

/-- With fewer rows there are no more faulty keys. -/
theorem keyFault?_withRows (faultless : workbook.keyFault? settings = none)
    (unique : workbook.names.Nodup) (tableMem : table ∈ workbook.tables) {rows : List Fields}
    (subset : rows ⊆ table.rows) :
    (workbook.withRows table.name rows).keyFault? settings = none := by
  rw [keyFault?_eq_none_iff] at faultless ⊢
  intro other otherMem row rowMem key keyMem
  obtain ⟨old, oldMem, rfl⟩ := List.mem_map.mp otherMem
  rw [names_withRows]
  by_cases sameName : old.name = table.name
  · obtain rfl := List.inj_on_of_nodup_map unique oldMem tableMem sameName
    rw [if_pos rfl] at rowMem ⊢
    exact faultless old oldMem row (subset rowMem) key keyMem
  · rw [if_neg sameName] at rowMem ⊢
    exact faultless old oldMem row rowMem key keyMem

/-- A table that nothing refers to, beside the same table with one of its rows alone. -/
theorem sideBySide_withRows (unique : workbook.names.Nodup)
    (tablesEq : workbook.tables = before ++ [table] ++ after)
    (untargeted : ∀ other ∈ workbook.tables, other.Avoids settings table.name) (row : Fields) :
    SideBySide settings table.name Store.nothing workbook (workbook.withRows table.name [row])
      before [table] [table.only row] after := by
  have apart := apart_of_tables_eq unique tablesEq
  apply sideBySide_of_avoids tablesEq (tables_withRows tablesEq apart [row])
  · exact List.forall_mem_singleton.mpr rfl
  · exact apart
  · exact fun other otherMem _ => untargeted other otherMem

theorem avoids_only {row : Fields} (avoids : table.Avoids settings table.name)
    (rowMem : row ∈ table.rows) : (table.only row).Avoids settings table.name :=
  List.forall_mem_singleton.mpr (avoids row rowMem)

/-- A row of a table as a run resolves it, by its position. -/
def resolvedRow? (settings : Settings) (workbook : Workbook) (name : String) (index : Nat) :
    Option Value :=
  (workbook.resolvedRows? settings name).bind (·[index]?)

theorem resolvedRow?_eq {index : Nat} {row : Fields} (unique : workbook.names.Nodup)
    (tableMem : table ∈ workbook.tables)
    (elsewhere : ∀ patch ∈ workbook.names, TableName.kind settings patch = .patch →
      workbook.names.find? (TableName.isPatchTarget settings.delimiters patch) ≠
        some table.name)
    (rowAt : table.rows[index]? = some row) :
    workbook.resolvedRow? settings table.name index =
      some (.obj (workbook.resolvedRow settings table.name row)) := by
  rw [resolvedRow?, resolvedRows?_eq unique tableMem elsewhere, Option.bind_some,
    List.getElem?_map, rowAt]
  rfl

/-- A row of a table that no link leads to and no patch aims at, against the same row as the
only one of its table. Both runs resolve it. When the waiting links that the row has stand on
both backlogs in the same order, both resolve it to the same record. When its waiting links
set different fields and read nothing but their own cells, both records have the same
fields. -/
theorem publish_withRows {publication : Publication} {index : Nat} {row : Fields}
    (published : workbook.publish settings = .ok publication)
    (tableMem : table ∈ workbook.tables)
    (noPatch : TableName.kind settings table.name ≠ .patch)
    (untargeted : ∀ other ∈ workbook.tables, other.Avoids settings table.name)
    (elsewhere : ∀ patch ∈ workbook.names, TableName.kind settings patch = .patch →
      workbook.names.find? (TableName.isPatchTarget settings.delimiters patch) ≠
        some table.name)
    (rowAt : table.rows[index]? = some row) :
    ∃ others record alone,
      (workbook.withRows table.name [row]).publish settings = .ok others ∧
        workbook.resolvedRow? settings table.name index = some (.obj record) ∧
          (workbook.withRows table.name [row]).resolvedRow? settings table.name 0 =
              some (.obj alone) ∧
            ((table.waitingKeys settings.delimiters workbook.names).filter
                  (· ∈ Entries.keys row ++ Fields.roots settings.delimiters row) =
                (table.only row).waitingKeys settings.delimiters workbook.names →
              record = alone) ∧
            (Fields.WaitsApart settings.delimiters row
                ((table.only row).waitingKeys settings.delimiters workbook.names)
                (table.waitingKeys settings.delimiters workbook.names) →
              record.Perm alone) := by
  obtain ⟨unique, faultless, patches, counted, rfl⟩ := publish_eq_ok_iff.mp published
  obtain ⟨before, after, tablesEq⟩ := List.append_of_mem tableMem
  rw [List.append_cons] at tablesEq
  have rowMem : row ∈ table.rows := List.mem_of_getElem? rowAt
  have sameNames := names_withRows workbook table.name [row]
  have otherUnique : (workbook.withRows table.name [row]).names.Nodup := sameNames ▸ unique
  have otherFaultless : (workbook.withRows table.name [row]).keyFault? settings = none :=
    keyFault?_withRows faultless unique tableMem (by simpa using rowMem)
  have pair := sideBySide_withRows unique tablesEq untargeted row
  obtain ⟨_, sameCount⟩ := pair.alike_finalStore noPatch pair.alike_settledStore_of_nothing
    (fun patch _ _ => by rw [sameNames]) (Or.inr elsewhere)
  have avoids := untargeted table tableMem
  obtain ⟨store, resolved⟩ :=
    pair.exists_resolvedRow_eq unique otherUnique avoids (avoids_only avoids rowMem)
  obtain ⟨recordEq, aloneEq⟩ := resolved row
  have otherElsewhere := elsewhere
  rw [← sameNames] at otherElsewhere
  have onlyMem : table.only row ∈ (workbook.withRows table.name [row]).tables := by
    simp [pair.otherTables]
  have aloneAt : (workbook.withRows table.name [row]).resolvedRow? settings
      (table.only row).name 0 = _ := resolvedRow?_eq otherUnique onlyMem otherElsewhere rfl
  -- Both lists of waiting keys are read off the same store, that of the tables in front.
  have ownKeys := waitingFrom_storeAfter pair.otherTables otherUnique otherFaultless
  rw [sameNames] at ownKeys
  rw [← waitingFrom_storeAfter tablesEq unique faultless, ← ownKeys]
  refine ⟨_, _, _, publish_eq_ok_iff.mpr ⟨otherUnique, otherFaultless, patches,
    sameCount.symm.trans counted, rfl⟩, resolvedRow?_eq unique tableMem elsewhere rowAt,
    aloneAt, fun sameOrder => ?_, fun apart => ?_⟩
  · rw [recordEq]
    exact (Store.foldl_waitingFrom_eq sameOrder).trans aloneEq.symm
  · rw [recordEq]
    exact (Store.foldl_waitingFrom_perm rowMem apart).trans (List.Perm.of_eq aloneEq.symm)

/-- A row of which one link waits. -/
def elder : Fields :=
  [("c:C$ref=id", .str "1,2"), ("a:A$ref=id", .str "0")]

/-- A row with two links that wait, a path and a plain key. -/
def younger : Fields :=
  [("p.q", .str "x"), ("b:B$ref=id$ref_prefix=1", .null), ("id", .str "k"),
    ("c:C$ref=id", .str "1")]

/-- The elder row makes the last link of the younger one wait first. -/
def siblings : Table :=
  { name := "T", rows := [elder, younger] }

/-- A workbook with the siblings among the tables that they link to. -/
def household : Workbook :=
  { tables :=
      [{ name := "A", rows := [[("id", .str "0")]] }, siblings,
       { name := "B", rows := [[("id", .str "1"), ("c:C$ref=id", .str "1")]] },
       { name := "C", rows := [[("id", .str "1"), ("d.e", .null)]] }] }

theorem waitsApart_younger :
    Fields.WaitsApart {} younger ((siblings.only younger).waitingKeys {} household.names)
      (siblings.waitingKeys {} household.names) := by
  have own : (siblings.only younger).waitingKeys {} household.names =
      ["b:B$ref=id$ref_prefix=1", "c:C$ref=id"] := by decide +kernel
  refine ⟨by decide, by decide +kernel, ?_, by decide +kernel⟩
  rw [own, List.forall_mem_cons, List.forall_mem_singleton]
  constructor
  · refine ⟨_, rfl, by decide, fun cell found => ?_⟩
    cases found
    decide
  · refine ⟨_, rfl, by decide, fun cell found => ?_⟩
    cases found
    decide

theorem publish_withRows_household :
    household.resolvedRow? {} "T" 0 = (household.withRows "T" [elder]).resolvedRow? {} "T" 0 ∧
      ∃ record alone, household.resolvedRow? {} "T" 1 = some (.obj record) ∧
        (household.withRows "T" [younger]).resolvedRow? {} "T" 0 = some (.obj alone) ∧
          Entries.keys record = ["id", "p", "c", "b"] ∧
            Entries.keys alone = ["id", "p", "b", "c"] ∧ record.Perm alone := by
  obtain ⟨publication, published⟩ :=
    exists_publish_eq_ok (by decide +kernel : (household.publish {}).isOk = true)
  have recordKeys : ((household.resolvedRow? {} "T" 1).bind Value.fields?).map Entries.keys =
      some ["id", "p", "c", "b"] := by decide +kernel
  have aloneKeys : (((household.withRows "T" [younger]).resolvedRow? {} "T" 0).bind
      Value.fields?).map Entries.keys = some ["id", "p", "b", "c"] := by decide +kernel
  have member : siblings ∈ household.tables := by simp [household]
  have noPatch : TableName.kind {} siblings.name ≠ .patch := by decide
  have untargeted : ∀ other ∈ household.tables, other.Avoids {} siblings.name := by
    decide +kernel
  have elsewhere : ∀ patch ∈ household.names, TableName.kind {} patch = .patch →
      household.names.find? (TableName.isPatchTarget {} patch) ≠ some siblings.name := by
    decide +kernel
  constructor
  · obtain ⟨_, record, alone, _, recordAt, aloneAt, same, _⟩ :=
      publish_withRows published member noPatch untargeted elsewhere
        (rfl : siblings.rows[0]? = some elder)
    have sameOrder : (siblings.waitingKeys {} household.names).filter
        (· ∈ Entries.keys elder ++ Fields.roots {} elder) =
          (siblings.only elder).waitingKeys {} household.names := by decide +kernel
    rw [same sameOrder] at recordAt
    exact recordAt.trans aloneAt.symm
  · obtain ⟨_, record, alone, _, recordAt, aloneAt, _, perm⟩ :=
      publish_withRows published member noPatch untargeted elsewhere
        (rfl : siblings.rows[1]? = some younger)
    rw [show siblings.name = "T" from rfl] at recordAt aloneAt
    rw [recordAt] at recordKeys
    rw [aloneAt] at aloneKeys
    exact ⟨record, alone, recordAt, aloneAt, Option.some_inj.mp recordKeys,
      Option.some_inj.mp aloneKeys, perm waitsApart_younger⟩

/-- Every row of a table that nothing refers to is resolved as if it were alone. -/
def RowLocal (settings : Settings) (workbook : Workbook) : Prop :=
  ∀ publication, workbook.publish settings = .ok publication → ∀ table ∈ workbook.tables,
    TableName.kind settings table.name ≠ .patch →
      (∀ other ∈ workbook.tables, other.Avoids settings table.name) →
        (∀ patch ∈ workbook.names, TableName.kind settings patch = .patch →
          workbook.names.find? (TableName.isPatchTarget settings.delimiters patch) ≠
            some table.name) →
          ∀ index row, table.rows[index]? = some row →
            workbook.resolvedRow? settings table.name index =
              (workbook.withRows table.name [row]).resolvedRow? settings table.name 0

/-- A row with two waiting links to one field, behind a row with the second of them. -/
def rivals : Table :=
  { name := "T"
    rows :=
      [[("f:C$ref=id", .str "1")], [("f:B$ref=id", .str "1"), ("f:C$ref=id", .str "1")]] }

/-- A workbook with rival links in front of their targets. -/
def entangled : Workbook :=
  { tables :=
      [rivals, { name := "B", rows := [[("id", .str "1"), ("from", .str "B")]] },
       { name := "C", rows := [[("id", .str "1"), ("from", .str "C")]] }] }

/-- The first row makes the link to `C` wait in front of the link to `B`, so the second row
ends with the rows of `B` in its field. Alone it ends with those of `C`. -/
theorem not_rowLocal_entangled :
    (entangled.publish {}).isOk = true ∧ ¬ entangled.RowLocal {} := by
  have succeeds : (entangled.publish {}).isOk = true := by decide +kernel
  refine ⟨succeeds, fun rowLocal => ?_⟩
  obtain ⟨publication, published⟩ := exists_publish_eq_ok succeeds
  have differ : entangled.resolvedRow? {} rivals.name 1 ≠
      (entangled.withRows rivals.name
        [[("f:B$ref=id", .str "1"), ("f:C$ref=id", .str "1")]]).resolvedRow? {}
          rivals.name 0 := by
    decide +kernel
  exact differ (rowLocal publication published rivals (by simp [entangled])
    (by decide +kernel) (by decide +kernel) (by decide +kernel) 1 _ rfl)

end Workbook

end Tabula

import Mathlib.Data.List.Basic
import Tabula.Proofs.Run.Ending
import Tabula.Proofs.Run.History

/-!
# Two runs side by side

Two workbooks may have different tables of one name in the middle of tables that they
share. As long as the shared tables look at this name through a view that shows no
difference, both runs store them alike and let the same columns of them wait. The columns of
the shared tables keep their places on the two backlogs: those of the tables in front come
first, then those of the tables in the middle, then the rest.
-/

namespace Tabula

variable {β : Type} {settings : Settings} {name : String} {view : Option (List Value) → β}

namespace Store

/-- The columns that wait while tables are stored one after another, none of them twice. -/
def waitingFrom (settings : Settings) (store : Store) (tables : List Table) : List Pending :=
  (store.postponedFrom settings tables).eraseDups

theorem table_eq_of_mem_waitingFrom (settings : Settings) (store : Store) {tables : List Table}
    (own : ∀ table ∈ tables, table.name = name) :
    ∀ entry ∈ store.waitingFrom settings tables, entry.table = name := by
  intro entry waits
  rw [waitingFrom, List.mem_eraseDups] at waits
  obtain ⟨table, tableMem, sameTable, _⟩ := exists_of_mem_postponedFrom waits
  rw [sameTable, own table tableMem]

theorem table_ne_of_mem_postponedFrom {store : Store} {tables : List Table} {entry : Pending}
    (apart : ∀ table ∈ tables, table.name ≠ name)
    (waits : entry ∈ store.postponedFrom settings tables) : entry.table ≠ name := by
  obtain ⟨table, tableMem, sameTable, _⟩ := exists_of_mem_postponedFrom waits
  rw [sameTable]
  exact apart table tableMem

/-- What waits of a table sees what its table sees. -/
theorem seesThrough_of_mem_postponedFrom {store : Store} {tables : List Table} {entry : Pending}
    (sees : ∀ table ∈ tables, table.SeesThrough settings name view)
    (waits : entry ∈ store.postponedFrom settings tables) :
    Column.SeesThrough settings name view entry.key := by
  obtain ⟨table, tableMem, _, row, rowMem, keyMem, _⟩ := exists_of_mem_postponedFrom waits
  exact sees table tableMem row rowMem entry.key keyMem

end Store

/-- Removing entries is removing those among them that are there. -/
theorem removeAll_congr {entries first second : List Pending}
    (same : ∀ entry ∈ entries, entry ∈ first ↔ entry ∈ second) :
    entries.removeAll first = entries.removeAll second := by
  apply List.filter_congr
  intro entry entryMem
  rw [List.elem_eq_mem, List.elem_eq_mem, decide_eq_decide.mpr (same entry entryMem)]

/-- Lists of columns of which the middle one shares nothing with the others, without
repetitions. -/
theorem eraseDups_append_append {front middle back : List Pending}
    (apartFront : ∀ entry ∈ middle, entry ∉ front) (apartBack : ∀ entry ∈ back, entry ∉ middle) :
    (front ++ middle ++ back).eraseDups =
      front.eraseDups ++ middle.eraseDups ++ (back.removeAll front).eraseDups := by
  have sameMiddle : middle.removeAll front = middle.removeAll [] :=
    removeAll_congr fun entry entryMem =>
      ⟨fun inFront => absurd inFront (apartFront entry entryMem), fun nowhere => by cases nowhere⟩
  have sameBack : back.removeAll (front ++ middle) = back.removeAll front :=
    removeAll_congr fun entry entryMem => by
      rw [List.mem_append, or_iff_left (apartBack entry entryMem)]
  rw [List.eraseDups_append, List.eraseDups_append, sameMiddle, sameBack]
  simp

namespace Workbook

variable {workbook other : Workbook} {before left right after : List Table}

/-- The store after the tables in front. -/
def storeAfter (settings : Settings) (before : List Table) : Store :=
  before.foldl (Store.addTable settings) { rowsField := settings.rowsField }

/-- With tables of one name in the middle, their columns stand in the middle of the backlog. -/
theorem entries_of_tables_eq (settings : Settings) {middle : List Table}
    (tablesEq : workbook.tables = before ++ middle ++ after)
    (own : ∀ table ∈ middle, table.name = name)
    (apart : ∀ table ∈ before ++ after, table.name ≠ name) :
    (workbook.firstPass settings).backlog.entries =
      (storeAfter settings []).waitingFrom settings before ++
        (storeAfter settings before).waitingFrom settings middle ++
          (((middle.foldl (Store.addTable settings) (storeAfter settings before)).postponedFrom
              settings after).removeAll
            ((storeAfter settings []).postponedFrom settings before)).eraseDups := by
  -- Columns of tables with different names differ, so the middle part repeats none of the
  -- others and none of it is repeated.
  obtain ⟨apartBefore, apartAfter⟩ := List.forall_mem_append.mp apart
  have ownEntry : ∀ entry ∈ (storeAfter settings before).postponedFrom settings middle,
      entry.table = name := fun entry waits =>
    Store.table_eq_of_mem_waitingFrom settings (storeAfter settings before) own entry
      (List.mem_eraseDups.mpr waits)
  rw [entries_firstPass, tablesEq, Store.postponedFrom_append, Store.postponedFrom_append,
    List.foldl_append]
  apply eraseDups_append_append
  · intro entry waits inFront
    exact Store.table_ne_of_mem_postponedFrom apartBefore inFront (ownEntry entry waits)
  · intro entry inBack waits
    exact Store.table_ne_of_mem_postponedFrom apartAfter inBack (ownEntry entry waits)

/-- Two workbooks that differ in the middle alone, in tables named `name`. All other tables
see of this name what a view shows, and the view shows no difference. -/
structure SideBySide (settings : Settings) (name : String) (view : Option (List Value) → β)
    (workbook other : Workbook) (before left right after : List Table) : Prop where
  tables : workbook.tables = before ++ left ++ after
  otherTables : other.tables = before ++ right ++ after
  own : ∀ table ∈ left, table.name = name
  otherOwn : ∀ table ∈ right, table.name = name
  apart : ∀ table ∈ before ++ after, table.name ≠ name
  sees : ∀ table ∈ before ++ after, table.SeesThrough settings name view
  sameView : ∀ store : Store,
    view ((left.foldl (Store.addTable settings) store).rows? name) =
      view ((right.foldl (Store.addTable settings) store).rows? name)

namespace SideBySide

theorem alike_middle (pair : SideBySide settings name view workbook other before left right after) :
    Store.Alike name view (left.foldl (Store.addTable settings) (storeAfter settings before))
      (right.foldl (Store.addTable settings) (storeAfter settings before)) := by
  have same := (Store.alike_foldl_addTable settings (storeAfter settings before) pair.own).trans
    (Store.alike_foldl_addTable settings (storeAfter settings before) pair.otherOwn).symm
  exact ⟨same.rowsField, same.outside, pair.sameView _⟩

/-- The first passes come to stores that look alike. -/
theorem alike_firstPass
    (pair : SideBySide settings name view workbook other before left right after) :
    Store.Alike name view (workbook.firstPass settings).store
      (other.firstPass settings).store := by
  have apart := (List.forall_mem_append.mp pair.apart).2
  have sees := (List.forall_mem_append.mp pair.sees).2
  rw [store_firstPass, store_firstPass, pair.tables, pair.otherTables, List.foldl_append,
    List.foldl_append, List.foldl_append, List.foldl_append]
  exact (pair.alike_middle.foldl_addTable apart sees).1

/-- The backlogs are the same around the columns of the tables in the middle. -/
theorem exists_entries_eq
    (pair : SideBySide settings name view workbook other before left right after) :
    ∃ front back,
      (workbook.firstPass settings).backlog.entries =
          front ++ (storeAfter settings before).waitingFrom settings left ++ back ∧
        (other.firstPass settings).backlog.entries =
            front ++ (storeAfter settings before).waitingFrom settings right ++ back ∧
          ∀ entry ∈ front ++ back,
            entry.table ≠ name ∧ Column.SeesThrough settings name view entry.key := by
  obtain ⟨apartBefore, apartAfter⟩ := List.forall_mem_append.mp pair.apart
  obtain ⟨seesBefore, seesAfter⟩ := List.forall_mem_append.mp pair.sees
  have entries := entries_of_tables_eq settings pair.tables pair.own pair.apart
  have otherEntries := entries_of_tables_eq settings pair.otherTables pair.otherOwn pair.apart
  -- The tables behind are stored into stores that look alike, so the same columns wait.
  rw [← (pair.alike_middle.foldl_addTable apartAfter seesAfter).2] at otherEntries
  refine ⟨_, _, entries, otherEntries, List.forall_mem_append.mpr ⟨?_, ?_⟩⟩
  · intro entry waits
    rw [Store.waitingFrom, List.mem_eraseDups] at waits
    exact ⟨Store.table_ne_of_mem_postponedFrom apartBefore waits,
      Store.seesThrough_of_mem_postponedFrom seesBefore waits⟩
  · intro entry waits
    rw [List.mem_eraseDups, List.removeAll] at waits
    have waitsBehind := List.mem_of_mem_filter waits
    exact ⟨Store.table_ne_of_mem_postponedFrom apartAfter waitsBehind,
      Store.seesThrough_of_mem_postponedFrom seesAfter waitsBehind⟩

/-- Settled, the stores still look alike when settling what waits of the tables in the middle
keeps the likeness. -/
theorem alike_settledStore
    (pair : SideBySide settings name view workbook other before left right after)
    (settled : ∀ store otherStore, Store.Alike name view store otherStore →
      Store.Alike name view
        (((storeAfter settings before).waitingFrom settings left).foldl
          (Store.settleColumn settings) store)
        (((storeAfter settings before).waitingFrom settings right).foldl
          (Store.settleColumn settings) otherStore)) :
    Store.Alike name view (workbook.settledStore settings) (other.settledStore settings) := by
  obtain ⟨front, back, entries, otherEntries, sees⟩ := pair.exists_entries_eq
  obtain ⟨seesFront, seesBack⟩ := List.forall_mem_append.mp sees
  rw [settledStore, settledStore, entries, otherEntries, List.foldl_append, List.foldl_append,
    List.foldl_append, List.foldl_append]
  have afterFront := pair.alike_firstPass.foldl_settleColumn
    (fun entry entryMem => (seesFront entry entryMem).1)
    (fun entry entryMem => (seesFront entry entryMem).2)
  exact (settled _ _ afterFront).foldl_settleColumn
    (fun entry entryMem => (seesBack entry entryMem).1)
    (fun entry entryMem => (seesBack entry entryMem).2)

/-- When no other table looks at the name, whatever waits of the tables in the middle leaves
the stores alike. -/
theorem alike_settledStore_of_nothing
    (pair : SideBySide settings name Store.nothing workbook other before left right after) :
    Store.Alike name Store.nothing (workbook.settledStore settings)
      (other.settledStore settings) := by
  apply pair.alike_settledStore
  intro store otherStore alike
  have ownSteps := Store.alike_foldl_settleColumn settings store
    (Store.table_eq_of_mem_waitingFrom settings (storeAfter settings before) pair.own)
  have otherSteps := Store.alike_foldl_settleColumn settings otherStore
    (Store.table_eq_of_mem_waitingFrom settings (storeAfter settings before) pair.otherOwn)
  exact (ownSteps.trans alike).trans otherSteps.symm

/-- Only the columns of the name itself differ on the two backlogs. -/
theorem filter_entries_eq
    (pair : SideBySide settings name view workbook other before left right after) :
    ((workbook.firstPass settings).backlog.entries.filter fun entry => entry.table ≠ name) =
      (other.firstPass settings).backlog.entries.filter fun entry => entry.table ≠ name := by
  obtain ⟨front, back, entries, otherEntries, _⟩ := pair.exists_entries_eq
  have ownDropped : ∀ tables : List Table, (∀ table ∈ tables, table.name = name) →
      (((storeAfter settings before).waitingFrom settings tables).filter
        fun entry => entry.table ≠ name) = [] := by
    intro tables own
    rw [List.filter_eq_nil_iff]
    intro entry waits
    simpa using
      Store.table_eq_of_mem_waitingFrom settings (storeAfter settings before) own entry waits
  rw [entries, otherEntries]
  simp only [List.filter_append, ownDropped left pair.own, ownDropped right pair.otherOwn]

/-- Both workbooks have the same patch tables. -/
theorem filter_names_eq
    (pair : SideBySide settings name view workbook other before left right after)
    (noPatch : TableName.kind settings name ≠ .patch) :
    (workbook.names.filter fun wanted => TableName.kind settings wanted = .patch) =
      other.names.filter fun wanted => TableName.kind settings wanted = .patch := by
  have ownDropped : ∀ tables : List Table, (∀ table ∈ tables, table.name = name) →
      ((tables.map Table.name).filter fun wanted => TableName.kind settings wanted = .patch) =
        [] := by
    intro tables own
    rw [List.filter_eq_nil_iff, List.forall_mem_map]
    intro table tableMem
    simpa [own table tableMem] using noPatch
  simp only [names, pair.tables, pair.otherTables, List.map_append, List.filter_append,
    ownDropped left pair.own, ownDropped right pair.otherOwn]

/-- Patching keeps the likeness and does as much in both runs. -/
theorem alike_finalStore
    (pair : SideBySide settings name view workbook other before left right after)
    (noPatch : TableName.kind settings name ≠ .patch)
    (alike : Store.Alike name Store.nothing (workbook.settledStore settings)
      (other.settledStore settings))
    (sameTarget : ∀ patch ∈ workbook.names, TableName.kind settings patch = .patch →
      workbook.names.find? (TableName.isPatchTarget settings.delimiters patch) =
        other.names.find? (TableName.isPatchTarget settings.delimiters patch))
    (held : ((workbook.settledStore settings).document? name).isSome =
        ((other.settledStore settings).document? name).isSome ∨
      ∀ patch ∈ workbook.names, TableName.kind settings patch = .patch →
        workbook.names.find? (TableName.isPatchTarget settings.delimiters patch) ≠ some name) :
    Store.Alike name Store.nothing (workbook.finalStore settings) (other.finalStore settings) ∧
      ((workbook.settledStore settings).applyPatches settings workbook.names).2 =
        ((other.settledStore settings).applyPatches settings other.names).2 := by
  rw [finalStore, finalStore, Store.applyPatches_eq_filter settings workbook.names,
    Store.applyPatches_eq_filter settings other.names, ← pair.filter_names_eq noPatch]
  apply alike.applyPatchesFrom noPatch
  · exact fun patch patchMem => sameTarget patch (List.mem_of_mem_filter patchMem)
  · exact held.imp_right fun elsewhere patch patchMem =>
      elsewhere patch (List.mem_of_mem_filter patchMem)

end SideBySide

/-- Without repeated names the tables around a table have other names. -/
theorem apart_of_tables_eq {table : Table} (unique : workbook.names.Nodup)
    (tablesEq : workbook.tables = before ++ [table] ++ after) :
    ∀ other ∈ before ++ after, other.name ≠ table.name := by
  rw [names, tablesEq, List.append_assoc, List.singleton_append,
    (List.perm_middle.map Table.name).nodup_iff, List.map_cons, List.nodup_cons] at unique
  exact fun other otherMem same => unique.1 (same ▸ List.mem_map_of_mem otherMem)

/-- A table that no other table links to can be exchanged without anyone looking. -/
theorem sideBySide_of_avoids {table : Table}
    (tables : workbook.tables = before ++ [table] ++ after)
    (otherTables : other.tables = before ++ right ++ after)
    (otherOwn : ∀ own ∈ right, own.name = table.name)
    (apart : ∀ other ∈ before ++ after, other.name ≠ table.name)
    (untargeted : ∀ other ∈ workbook.tables, other.name ≠ table.name →
      other.Avoids settings table.name) :
    SideBySide settings table.name Store.nothing workbook other before [table] right after := by
  refine ⟨tables, otherTables, by simp, otherOwn, apart, fun other otherMem => ?_, fun _ => rfl⟩
  have inWorkbook : other ∈ workbook.tables := by
    rw [tables]
    rcases List.mem_append.mp otherMem with early | late
    · simp [early]
    · simp [late]
  exact (untargeted other inWorkbook (apart other otherMem)).seesThrough

end Workbook

end Tabula

import Mathlib.Data.List.Basic
import Tabula.Proofs.Run.Outcome
import Tabula.Proofs.Run.Patching

/-!
# What a workbook without patches emits

Without patches every stored document consists of its rows alone. An emitted table is
then an artifact that holds the resolved rows under one field and nothing else.
-/

namespace Tabula

/-- The artifact of a table whose document consists of the given rows, if the table is
emitted. -/
def Table.artifact? (settings : Settings) (table : Table) (rows : List Fields) :
    Option Artifact :=
  if TableName.kind settings table.name ≠ .regular then
    none
  else
    match TableName.parts? settings.delimiters table.name with
    | none =>
        some
          { name := table.name
            document := .obj [(settings.rowsField, .arr (rows.map .obj))] }
    | some parts =>
        parts.rowsField?.map fun rowsField =>
          { name := parts.base
            document := .obj [(rowsField, .arr (rows.map .obj))] }

namespace Store

/-- Every document of the store consists of its rows alone. -/
def RowsOnly (store : Store) : Prop :=
  ∀ table document, store.document? table = some document →
    ∃ rows, document = [(store.rowsField, .arr rows)]

section RowsOnly

variable {settings : Settings} {store : Store}

theorem RowsOnly.putDocument (rowsOnly : store.RowsOnly) (table : String) (rows : List Value) :
    (store.putDocument table [(store.rowsField, .arr rows)]).RowsOnly := by
  intro wanted document stored
  rw [document?_putDocument] at stored
  split at stored
  · cases stored
    exact ⟨rows, rfl⟩
  · exact rowsOnly wanted document stored

theorem RowsOnly.updateRows (rowsOnly : store.RowsOnly) (table : String) (rows : List Value) :
    (store.updateRows table rows).RowsOnly := by
  unfold Store.updateRows
  cases stored : store.document? table with
  | none => exact rowsOnly.putDocument table rows
  | some document =>
      obtain ⟨old, rfl⟩ := rowsOnly table document stored
      dsimp only
      rw [Entries.put, if_pos rfl]
      exact rowsOnly.putDocument table rows

theorem RowsOnly.settleColumn (rowsOnly : store.RowsOnly) (entry : Pending) :
    (store.settleColumn settings entry).RowsOnly := by
  unfold Store.settleColumn
  split
  · exact rowsOnly.updateRows entry.table _
  · exact rowsOnly

theorem RowsOnly.document?_eq (rowsOnly : store.RowsOnly) {table : String} {rows : List Value}
    (stored : store.rows? table = some rows) :
    store.document? table = some [(store.rowsField, .arr rows)] := by
  rw [rows?] at stored
  cases found : store.document? table with
  | none => simp [found] at stored
  | some document =>
      obtain ⟨old, rfl⟩ := rowsOnly table document found
      have sameRows : old = rows := by
        simpa [found, Entries.get?_cons, Value.items?] using stored
      rw [sameRows]

/-- A table whose document consists of its rows alone is emitted with these rows. -/
theorem RowsOnly.artifact?_eq (rowsOnly : store.RowsOnly)
    (sameField : store.rowsField = settings.rowsField) {table : Table} {rows : List Fields}
    (stored : store.rows? table.name = some (rows.map .obj)) :
    store.artifact? settings table.name = table.artifact? settings rows := by
  rw [artifact?, Table.artifact?, rowsOnly.document?_eq stored, ← sameField]
  cases TableName.parts? settings.delimiters table.name with
  | none => rfl
  | some parts =>
      have renamed : ∀ rowsField,
          Fields.rename [(store.rowsField, .arr (rows.map .obj))] store.rowsField rowsField =
            [(rowsField, .arr (rows.map .obj))] := by
        intro rowsField
        simp [Fields.rename, Entries.collect, Entries.put]
      simp only [renamed]

end RowsOnly

end Store

namespace Workbook

variable {settings : Settings} {workbook : Workbook}

theorem rowsOnly_settledStore : (workbook.settledStore settings).RowsOnly := by
  apply settledStore_induction
  · intro table document stored
    cases stored
  · exact fun store table _ rowsOnly => rowsOnly.putDocument table.name _
  · exact fun store entry _ rowsOnly => rowsOnly.settleColumn entry

theorem rowsField_settledStore :
    (workbook.settledStore settings).rowsField = settings.rowsField := by
  let sameField : Store → Prop := fun store => store.rowsField = settings.rowsField
  have kept : sameField (workbook.settledStore settings) := by
    apply settledStore_induction
    · exact rfl
    · exact fun store table _ same => (Store.rowsField_addTable settings store table).trans same
    · exact fun store entry _ same => Store.rowsField_settleColumn.trans same
  exact kept

/-- Without patches a run emits every table that is to be emitted, with its resolved rows. -/
theorem artifacts_of_no_patch {publication : Publication}
    (noPatch : ∀ table ∈ workbook.tables, TableName.kind settings table.name ≠ .patch)
    (published : workbook.publish settings = .ok publication) :
    publication.artifacts = workbook.tables.filterMap fun table =>
      table.artifact? settings (table.rows.map (workbook.resolvedRow settings table.name)) := by
  obtain ⟨unique, _, patched, patches, applied, rfl⟩ := publish_eq_ok published
  have noPatchName : ∀ name ∈ workbook.names, TableName.kind settings name ≠ .patch :=
    List.forall_mem_map.mpr noPatch
  rw [Store.applyPatches_of_no_patch noPatchName] at applied
  cases applied
  rw [Store.artifacts, names, List.filterMap_map]
  apply List.filterMap_congr
  intro table tableMem
  apply rowsOnly_settledStore.artifact?_eq rowsField_settledStore
  rw [rows?_settledStore unique tableMem, List.map_map]
  rfl

/-- Without patches a run succeeds when names are unique and no key is faulty. -/
theorem exists_publish_eq_ok_iff
    (noPatch : ∀ table ∈ workbook.tables, TableName.kind settings table.name ≠ .patch) :
    (∃ publication, workbook.publish settings = .ok publication) ↔
      workbook.names.Nodup ∧ workbook.keyFault? settings = none := by
  constructor
  · rintro ⟨publication, published⟩
    obtain ⟨unique, faultless, _⟩ := publish_eq_ok published
    exact ⟨unique, faultless⟩
  · rintro ⟨unique, faultless⟩
    have noRepeated : firstRepeated? [] workbook.names = none :=
      firstRepeated?_eq_none_iff.mpr ⟨unique, fun _ _ => List.not_mem_nil⟩
    have noPatchName : ∀ name ∈ workbook.names, TableName.kind settings name ≠ .patch :=
      List.forall_mem_map.mpr noPatch
    rw [publish_eq, noRepeated, faultless, Store.applyPatches_of_no_patch noPatchName]
    exact ⟨_, rfl⟩

end Workbook

end Tabula

import Tabula.Proofs.Run.Outcome
import Tabula.Proofs.Value.Leaves

/-!
# No name is repeated

Rows in which no object repeats a name stay such through every column and every patch. So
all documents of a run are well formed when the rows of the workbook are.
-/

namespace Tabula

/-- No object in a cell of the workbook repeats a name, and no row repeats a key. -/
def Workbook.WellFormed (workbook : Workbook) : Prop :=
  ∀ table ∈ workbook.tables, ∀ row ∈ table.rows, (Value.obj row).WellFormed

/-- Unfolding a path repeats no name. -/
theorem Fields.wellFormed_unfold {fields : Fields} (formed : (Value.obj fields).WellFormed)
    (key : String) (segments : List String) :
    (Value.obj (Fields.unfold fields key segments)).WellFormed := by
  cases segments with
  | nil => exact formed
  | cons root rest =>
      cases found : Entries.get? fields key with
      | none =>
          rw [Fields.unfold_of_get?_eq_none found]
          exact formed
      | some value =>
          have erased := Value.wellFormed_erase formed key
          have valueFormed := Value.wellFormed_of_get?_eq_some formed found
          rw [Fields.unfold_cons_of_get?_eq_some found]
          exact Value.wellFormed_put erased (Fields.wellFormed_branch erased valueFormed root rest)

/-- Rows without repeated names are embedded without repeated names. -/
theorem Link.wellFormed_linkedRows {targetRows : List Value}
    (formed : ∀ row ∈ targetRows, row.WellFormed) (settings : Settings) (link : Link)
    (record : Fields) (cell : Value) :
    (Value.arr (link.linkedRows settings record cell targetRows)).WellFormed := by
  rw [Value.WellFormed, Value.wellFormedItems_iff]
  intro item itemMem
  obtain ⟨row, rowMem, rfl⟩ := List.mem_map.mp itemMem
  obtain ⟨value, valueMem, isObject⟩ := List.mem_filterMap.mp (List.mem_of_mem_filter rowMem)
  have rowFormed := formed value valueMem
  rw [Value.eq_obj_of_fields?_eq_some isObject, Value.wellFormed_obj_iff] at rowFormed
  obtain ⟨distinct, fieldsFormed⟩ := rowFormed
  apply Value.wellFormed_obj_iff.mpr
  constructor
  · exact distinct.sublist (List.filter_sublist.map Prod.fst)
  · exact fun field fieldMem => fieldsFormed field (List.mem_of_mem_filter fieldMem)

namespace Store

/-- No object in a document of the store repeats a name. -/
def WellFormed (store : Store) : Prop :=
  ∀ table document, store.document? table = some document → (Value.obj document).WellFormed

variable {settings : Settings} {store : Store}

theorem WellFormed.row (formed : store.WellFormed) {table : String} {rows : List Value}
    (stored : store.rows? table = some rows) {row : Value} (rowMem : row ∈ rows) :
    row.WellFormed := by
  rw [rows?] at stored
  cases found : store.document? table with
  | none => simp [found] at stored
  | some document =>
      rw [found] at stored
      obtain ⟨value, valueFound, isArray⟩ := Option.bind_eq_some_iff.mp stored
      have valueFormed := Value.wellFormed_of_get?_eq_some (formed table document found) valueFound
      cases value with
      | arr items =>
          cases isArray
          exact Value.wellFormedItems_iff.mp valueFormed row rowMem
      | _ => cases isArray

theorem WellFormed.putDocument (formed : store.WellFormed) (table : String) {document : Fields}
    (documentFormed : (Value.obj document).WellFormed) :
    (store.putDocument table document).WellFormed := by
  intro wanted other stored
  rw [document?_putDocument] at stored
  split at stored
  · cases stored
    exact documentFormed
  · exact formed wanted other stored

theorem WellFormed.putRows (formed : store.WellFormed) (table : String) {rows : List Value}
    (rowsFormed : ∀ row ∈ rows, row.WellFormed) : (store.putRows table rows).WellFormed := by
  apply formed.putDocument
  apply Value.wellFormed_obj_iff.mpr
  exact ⟨List.pairwise_singleton _ _, fun field fieldMem => by
    rw [List.mem_singleton.mp fieldMem, Value.WellFormed, Value.wellFormedItems_iff]
    exact rowsFormed⟩

theorem WellFormed.updateRows (formed : store.WellFormed) (table : String) {rows : List Value}
    (rowsFormed : ∀ row ∈ rows, row.WellFormed) : (store.updateRows table rows).WellFormed := by
  unfold Store.updateRows
  cases stored : store.document? table with
  | none => exact formed.putRows table rowsFormed
  | some document =>
      apply formed.putDocument
      apply Value.wellFormed_put (formed table document stored)
      rw [Value.WellFormed, Value.wellFormedItems_iff]
      exact rowsFormed

/-- No column repeats a name. -/
theorem WellFormed.applyColumn (formed : store.WellFormed) {record : Fields}
    (recordFormed : (Value.obj record).WellFormed) (key : String) :
    (Value.obj (store.applyColumn settings record key)).WellFormed := by
  cases read : Column.ofKey settings.delimiters key with
  | error fault =>
      rw [Store.applyColumn, read]
      exact recordFormed
  | ok column =>
      cases column with
      | plain =>
          rw [Store.applyColumn, read]
          exact recordFormed
      | path segments =>
          rw [applyColumn_of_path read]
          exact Fields.wellFormed_unfold recordFormed key segments
      | link link =>
          cases stored : store.rows? link.target with
          | none =>
              rw [applyColumn_of_postpones (postpones_eq_true_iff.mpr ⟨link, read, stored⟩)]
              exact recordFormed
          | some targetRows =>
              rw [applyColumn_of_link read stored, Link.embed]
              split
              · exact recordFormed
              · apply Value.wellFormed_put (Value.wellFormed_erase recordFormed key)
                exact Link.wellFormed_linkedRows (fun row rowMem => formed.row stored rowMem)
                  settings link record _

theorem WellFormed.addTable (formed : store.WellFormed) {table : Table}
    (rowsFormed : ∀ row ∈ table.rows, (Value.obj row).WellFormed) :
    (store.addTable settings table).WellFormed := by
  apply formed.putRows
  intro value valueMem
  obtain ⟨row, rowMem, rfl⟩ := List.mem_map.mp valueMem
  let wellFormed : Fields → Prop := fun record => (Value.obj record).WellFormed
  exact List.foldlRecOn (motive := wellFormed) (Entries.keys row) (store.applyColumn settings)
    (rowsFormed row rowMem) fun record recordFormed key _ => formed.applyColumn recordFormed key

theorem WellFormed.settleColumn (formed : store.WellFormed) (entry : Pending) :
    (store.settleColumn settings entry).WellFormed := by
  unfold Store.settleColumn
  split
  · rename_i rows stored
    apply formed.updateRows
    intro value valueMem
    obtain ⟨row, rowMem, rfl⟩ := List.mem_map.mp valueMem
    have rowFormed := formed.row stored rowMem
    cases row with
    | obj record => exact formed.applyColumn rowFormed entry.key
    | _ => exact rowFormed
  · exact formed

end Store

/-- All documents of a run are well formed before the patches. -/
theorem Workbook.WellFormed.settledStore {settings : Settings} {workbook : Workbook}
    (formed : workbook.WellFormed) : (workbook.settledStore settings).WellFormed := by
  apply settledStore_induction
  · intro table document stored
    cases stored
  · exact fun store table tableMem storeFormed => storeFormed.addTable (formed table tableMem)
  · exact fun store entry _ storeFormed => storeFormed.settleColumn entry

end Tabula

import Tabula.Proofs.Run.Emission
import Tabula.Proofs.Run.Ending
import Tabula.Proofs.Run.WellFormed
import Tabula.Proofs.Value.Overlay

/-!
# Documents over patches

A patched document lies over the rows of its patches: the patch applied first is right below
it, each later one below all of them. It keeps what it has, and from every patch it gains the
fields that nothing above has.
-/

namespace Tabula

/-- What an array is laid over can only come in front of it. -/
theorem Value.exists_overlaid_arr_eq (base? : Option Value) (items : List Value) :
    ∃ below, Value.overlaid base? (.arr items) = .arr (below ++ items) := by
  cases base? with
  | none => exact ⟨[], rfl⟩
  | some base =>
      cases base with
      | arr below => exact ⟨below, rfl⟩
      | _ => exact ⟨[], rfl⟩

theorem Value.overlaid_of_isContainer_eq_false {value : Value} (base? : Option Value)
    (scalar : value.isContainer = false) : Value.overlaid base? value = value := by
  cases base? with
  | none => rfl
  | some base => exact Value.overlay_of_isContainer_eq_false base scalar

namespace Fields

/-- A document laid over rows, one after another. -/
def laidOver (document : Fields) (rows : List Fields) : Fields :=
  rows.foldl (fun upper row => Fields.overlay row upper) document

section Over

variable {document row : Fields} {rows before after : List Fields} {name : String} {value : Value}

theorem laidOver_cons (document row : Fields) (rows : List Fields) :
    laidOver document (row :: rows) = laidOver (overlay row document) rows := rfl

theorem laidOver_append (document : Fields) (before after : List Fields) :
    laidOver document (before ++ after) = laidOver (laidOver document before) after :=
  List.foldl_append

theorem wellFormed_overlay_row (formed : (Value.obj document).WellFormed)
    (rowFormed : (Value.obj row).WellFormed) : (Value.obj (overlay row document)).WellFormed :=
  Value.wellFormed_overlayFields row rowFormed document (Value.wellFormed_obj_iff.mp formed).2

theorem wellFormed_laidOver (formed : (Value.obj document).WellFormed)
    (rowsFormed : ∀ row ∈ rows, (Value.obj row).WellFormed) :
    (Value.obj (laidOver document rows)).WellFormed := by
  let wellFormed : Fields → Prop := fun fields => (Value.obj fields).WellFormed
  exact List.foldlRecOn (motive := wellFormed) rows _ formed fun upper upperFormed row rowMem =>
    Value.wellFormed_overlayFields row (rowsFormed row rowMem) upper
      (Value.wellFormed_obj_iff.mp upperFormed).2

/-- No field gets lost and none is made up. -/
theorem mem_keys_laidOver :
    name ∈ Entries.keys (laidOver document rows) ↔
      name ∈ Entries.keys document ∨ ∃ row ∈ rows, name ∈ Entries.keys row := by
  induction rows generalizing document with
  | nil => simp [laidOver]
  | cons row rest ih =>
      rw [laidOver_cons, ih, mem_keys_overlay, List.exists_mem_cons_iff, or_comm (b := _ ∈ _),
        or_assoc]

/-- What a field becomes under one row after another is what it becomes step by step. -/
theorem get?_laidOver_induction {good : Option Value → Prop}
    (formed : (Value.obj document).WellFormed)
    (rowsFormed : ∀ row ∈ rows, (Value.obj row).WellFormed)
    (start : good (Entries.get? document name))
    (absent : ∀ row ∈ rows, good none → good (Entries.get? row name))
    (laid : ∀ row ∈ rows, ∀ value, good (some value) →
      good (some (Value.overlaid (Entries.get? row name) value))) :
    good (Entries.get? (laidOver document rows) name) := by
  induction rows generalizing document with
  | nil => exact start
  | cons row rest ih =>
      rw [List.forall_mem_cons] at rowsFormed absent laid
      obtain ⟨distinct, _⟩ := Value.wellFormed_obj_iff.mp formed
      rw [laidOver_cons]
      apply ih (wellFormed_overlay_row formed rowsFormed.1) rowsFormed.2 _ absent.2 laid.2
      rw [get?_overlay distinct]
      cases found : Entries.get? document name with
      | none => exact absent.1 (found ▸ start)
      | some value => exact laid.1 value (found ▸ start)

/-- An array of the document stays the end of the array that is found there at last. -/
theorem exists_get?_laidOver (formed : (Value.obj document).WellFormed)
    (rowsFormed : ∀ row ∈ rows, (Value.obj row).WellFormed) {items : List Value}
    (found : Entries.get? document name = some (.arr items)) :
    ∃ below, Entries.get? (laidOver document rows) name = some (.arr (below ++ items)) := by
  let endsWith : Option Value → Prop := fun value? => ∃ below, value? = some (.arr (below ++ items))
  have ending : endsWith (Entries.get? (laidOver document rows) name) := by
    apply get?_laidOver_induction formed rowsFormed
    · exact ⟨[], found⟩
    · rintro row _ ⟨below, isSome⟩
      cases isSome
    · rintro row _ value ⟨below, isArray⟩
      cases isArray
      obtain ⟨further, laid⟩ :=
        Value.exists_overlaid_arr_eq (Entries.get? row name) (below ++ items)
      exact ⟨further ++ below, by rw [laid, List.append_assoc]⟩
  exact ending

/-- A field that the rows below do not have stays as it is. -/
theorem get?_laidOver_of_absent (formed : (Value.obj document).WellFormed)
    (rowsFormed : ∀ row ∈ rows, (Value.obj row).WellFormed)
    (absent : ∀ row ∈ rows, name ∉ Entries.keys row) :
    Entries.get? (laidOver document rows) name = Entries.get? document name := by
  let same : Option Value → Prop := fun value? => value? = Entries.get? document name
  have kept : same (Entries.get? (laidOver document rows) name) := by
    apply get?_laidOver_induction formed rowsFormed
    · exact rfl
    · intro row rowMem isNone
      rw [Entries.get?_eq_none_iff.mpr (absent row rowMem)]
      exact isNone
    · intro row rowMem value isValue
      rw [Entries.get?_eq_none_iff.mpr (absent row rowMem)]
      exact isValue
  exact kept

/-- A scalar stays as it is, whatever the rows below have in its place. -/
theorem get?_laidOver_of_scalar (formed : (Value.obj document).WellFormed)
    (rowsFormed : ∀ row ∈ rows, (Value.obj row).WellFormed)
    (found : Entries.get? document name = some value) (scalar : value.isContainer = false) :
    Entries.get? (laidOver document rows) name = some value := by
  let same : Option Value → Prop := fun value? => value? = some value
  have kept : same (Entries.get? (laidOver document rows) name) := by
    apply get?_laidOver_induction formed rowsFormed
    · exact found
    · intro row _ isSome
      cases isSome
    · intro row _ other isValue
      cases isValue
      exact congrArg some (Value.overlaid_of_isContainer_eq_false _ scalar)
  exact kept

/-- The first row that has a field gives it its value. The value stays unless it is a container
that combines with a later row. -/
theorem get?_laidOver_of_first (formed : (Value.obj document).WellFormed)
    (rowsFormed : ∀ other ∈ before ++ row :: after, (Value.obj other).WellFormed)
    (fresh : name ∉ Entries.keys document) (first : ∀ other ∈ before, name ∉ Entries.keys other)
    (found : Entries.get? row name = some value)
    (stays : value.isContainer = false ∨ ∀ other ∈ after, name ∉ Entries.keys other) :
    Entries.get? (laidOver document (before ++ row :: after)) name = some value := by
  obtain ⟨beforeFormed, behindFormed⟩ := List.forall_mem_append.mp rowsFormed
  obtain ⟨rowFormed, afterFormed⟩ := List.forall_mem_cons.mp behindFormed
  have aboveFormed := wellFormed_laidOver formed beforeFormed
  have gained : Entries.get? (overlay row (laidOver document before)) name = some value := by
    rw [get?_overlay (Value.wellFormed_obj_iff.mp aboveFormed).1,
      get?_laidOver_of_absent formed beforeFormed first, Entries.get?_eq_none_iff.mpr fresh]
    exact found
  have hereFormed := wellFormed_overlay_row aboveFormed rowFormed
  rw [laidOver_append, laidOver_cons]
  rcases stays with scalar | absent
  · exact get?_laidOver_of_scalar hereFormed afterFormed gained scalar
  · rw [get?_laidOver_of_absent hereFormed afterFormed absent]
    exact gained

end Over

/-- A document that was made of rows alone and then laid over the rows of patches. -/
structure Patched (rowsField : String) (rows : List Value) (patchRows : List Fields)
    (document : Fields) : Prop where
  keys : ∀ name, name ∈ Entries.keys document ↔
    name = rowsField ∨ ∃ row ∈ patchRows, name ∈ Entries.keys row
  rows : ∃ below, Entries.get? document rowsField = some (.arr (below ++ rows))
  gained : ∀ before row after name value, patchRows = before ++ row :: after →
    name ≠ rowsField → (∀ other ∈ before, name ∉ Entries.keys other) →
      Entries.get? row name = some value →
        (value.isContainer = false ∨ ∀ other ∈ after, name ∉ Entries.keys other) →
          Entries.get? document name = some value

theorem patched_laidOver {rowsField : String} {rows : List Value} {patchRows : List Fields}
    (formed : (Value.obj [(rowsField, .arr rows)]).WellFormed)
    (patchRowsFormed : ∀ row ∈ patchRows, (Value.obj row).WellFormed) :
    Patched rowsField rows patchRows (laidOver [(rowsField, .arr rows)] patchRows) where
  keys := fun name => by
    rw [mem_keys_laidOver]
    simp [Entries.keys]
  rows := exists_get?_laidOver formed patchRowsFormed (if_pos rfl)
  gained := by
    rintro before row after name value rfl differ first found stays
    have fresh : name ∉ Entries.keys [(rowsField, Value.arr rows)] := by
      simpa [Entries.keys] using differ
    exact get?_laidOver_of_first formed patchRowsFormed fresh first found stays

end Fields

namespace Store

variable {settings : Settings} {store : Store} {names pending : List String} {name : String}

/-- The rows of the patches among the tables `pending` that are applied to the table `name`, in
order. -/
def patchRowsFrom (settings : Settings) (names : List String) (name : String) :
    (pending : List String) → Store → List Fields
  | [], _ => []
  | patch :: rest, store =>
      match store.applyPatch? settings names patch with
      | .error _ => []
      | .ok none => patchRowsFrom settings names name rest store
      | .ok (some patched) =>
          if names.find? (TableName.isPatchTarget settings.delimiters patch) = some name then
            ((store.rows? patch).getD []).filterMap Value.fields? ++
              patchRowsFrom settings names name rest patched
          else patchRowsFrom settings names name rest patched

/-- Patching lays the document of a table over the rows of its patches. -/
theorem document?_applyPatchesFrom_eq_laidOver {document : Fields}
    (stored : store.document? name = some document) (applied : Nat) :
    (store.applyPatchesFrom settings names applied pending).1.document? name =
      some (document.laidOver (store.patchRowsFrom settings names name pending)) := by
  induction pending generalizing store document applied with
  | nil => exact stored
  | cons patch rest ih =>
      rw [applyPatchesFrom, patchRowsFrom]
      cases outcome : store.applyPatch? settings names patch with
      | error fault => exact stored
      | ok after? =>
          cases after? with
          | none => exact ih stored applied
          | some after =>
              obtain ⟨_, row, target, old, laid, hasRow, found, oldStored, overlaid, rfl⟩ :=
                applyPatch?_eq_some outcome
              dsimp only
              by_cases own : target = name
              · subst own
                rw [stored, Option.some.injEq] at oldStored
                subst oldStored
                have nowStored : (store.putDocument target laid).document? target = some laid := by
                  rw [document?_putDocument, if_pos rfl]
                rw [if_pos found, ih nowStored (applied + 1), hasRow, Fields.laidOver_append]
                -- A row that is no object gives the document nothing.
                cases row with
                | obj fields =>
                    cases overlaid
                    rfl
                | _ =>
                    cases overlaid
                    rfl
              · have elsewhere :
                    names.find? (TableName.isPatchTarget settings.delimiters patch) ≠ some name :=
                  fun aimed => own (Option.some.inj (found.symm.trans aimed))
                rw [if_neg elsewhere]
                apply ih
                rw [document?_putDocument, if_neg own]
                exact stored

/-- Patching repeats no name, and neither do the rows of the patches. -/
theorem WellFormed.patchRowsFrom (formed : store.WellFormed) :
    ∀ row ∈ store.patchRowsFrom settings names name pending, (Value.obj row).WellFormed := by
  induction pending generalizing store with
  | nil => exact List.forall_mem_nil _
  | cons patch rest ih =>
      rw [Store.patchRowsFrom]
      split
      · exact List.forall_mem_nil _
      · exact ih formed
      · rename_i after patched
        obtain ⟨_, row, target, old, laid, hasRow, found, oldStored, overlaid, rfl⟩ :=
          applyPatch?_eq_some patched
        have rowFormed : row.WellFormed := formed.row hasRow List.mem_cons_self
        have laidFormed : (Value.obj laid).WellFormed := by
          rw [← overlaid]
          exact Value.wellFormed_overlay row rowFormed _ (formed target old oldStored)
        have later := ih (formed.putDocument target laidFormed)
        split
        · rw [hasRow, List.forall_mem_append]
          refine ⟨fun fields fieldsMem => ?_, later⟩
          obtain ⟨value, valueMem, isObject⟩ := List.mem_filterMap.mp fieldsMem
          rw [← Value.eq_obj_of_fields?_eq_some isObject]
          exact formed.row hasRow valueMem
        · exact later

end Store

namespace Workbook

variable {settings : Settings} {workbook : Workbook}

/-- The rows of the patches that a run applies to the table of a given name, in order. -/
def patchRows (settings : Settings) (workbook : Workbook) (name : String) : List Fields :=
  (workbook.settledStore settings).patchRowsFrom settings workbook.names name workbook.names

/-- The document of every table consists of its resolved rows and of what the patches give. -/
theorem exists_document?_finalStore (formed : workbook.WellFormed)
    (unique : workbook.names.Nodup) {table : Table} (tableMem : table ∈ workbook.tables) :
    ∃ document, (workbook.finalStore settings).document? table.name = some document ∧
      (Value.obj document).WellFormed ∧
        Fields.Patched settings.rowsField
          (table.rows.map fun row => .obj (workbook.resolvedRow settings table.name row))
          (workbook.patchRows settings table.name) document := by
  have stored : (workbook.settledStore settings).document? table.name = some _ :=
    rowsOnly_settledStore.document?_eq (rows?_settledStore unique tableMem)
  rw [rowsField_settledStore] at stored
  have storeFormed : (workbook.settledStore settings).WellFormed := formed.settledStore
  have ownFormed := storeFormed table.name _ stored
  have patchRowsFormed :
      ∀ row ∈ workbook.patchRows settings table.name, (Value.obj row).WellFormed :=
    storeFormed.patchRowsFrom
  exact ⟨_, Store.document?_applyPatchesFrom_eq_laidOver stored 0,
    Fields.wellFormed_laidOver ownFormed patchRowsFormed,
    Fields.patched_laidOver ownFormed patchRowsFormed⟩

end Workbook

end Tabula

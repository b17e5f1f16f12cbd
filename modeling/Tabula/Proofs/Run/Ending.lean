import Mathlib.Data.List.Basic
import Tabula.Proofs.Run.Likeness
import Tabula.Proofs.Run.Patching

/-!
# The end of a run

After the last column has been settled the patches are applied, and what the store holds
then is emitted. Stores that look alike outside one table get the same patches, as long as
that table is no patch itself, and in both of them the same tables are patched.
-/

namespace Tabula

namespace Store

variable {settings : Settings} {store other : Store} {name patch : String}
  {names otherNames pending : List String}

/-- Patching is an affair of the patch tables alone. -/
theorem applyPatchesFrom_filter (applied : Nat) :
    store.applyPatchesFrom settings names applied pending =
      store.applyPatchesFrom settings names applied
        (pending.filter fun name => TableName.kind settings name = .patch) := by
  induction pending generalizing store applied with
  | nil => rfl
  | cons first rest ih =>
      by_cases isPatch : TableName.kind settings first = .patch
      · rw [List.filter_cons, if_pos (by simpa using isPatch), applyPatchesFrom, applyPatchesFrom]
        split
        · rfl
        · exact ih applied
        · exact ih (applied + 1)
      · rw [List.filter_cons, if_neg (by simpa using isPatch), applyPatchesFrom,
          applyPatch?_of_kind_ne isPatch]
        exact ih applied

theorem applyPatches_eq_filter (settings : Settings) (names : List String) (store : Store) :
    store.applyPatches settings names =
      store.applyPatchesFrom settings names 0
        (names.filter fun name => TableName.kind settings name = .patch) :=
  applyPatchesFrom_filter 0

/-- Laying an object over any value gives an object. -/
theorem exists_overlay_obj (row : Value) (document : Fields) :
    ∃ patched, row.overlay (.obj document) = .obj patched := by
  cases row with
  | obj fields => exact ⟨Fields.overlay fields document, rfl⟩
  | _ => exact ⟨document, rfl⟩

/-- How patching with one table goes in two stores. -/
inductive PatchedAlike (name : String) (store other : Store) :
    Except Fault (Option Store) → Except Fault (Option Store) → Prop where
  | failed (fault : Fault) : PatchedAlike name store other (.error fault) (.error fault)
  | idle : PatchedAlike name store other (.ok none) (.ok none)
  | patched {after otherAfter : Store} (alike : Alike name nothing after otherAfter)
      (held : (store.document? name).isSome = (other.document? name).isSome →
        (after.document? name).isSome = (otherAfter.document? name).isSome) :
      PatchedAlike name store other (.ok (some after)) (.ok (some otherAfter))

/-- A patch other than the table `name` does the same in stores that look alike outside this
table, if it has the same target, and if the table is there in both when it is the target. -/
theorem Alike.applyPatch? (alike : Alike name nothing store other)
    (noPatch : TableName.kind settings name ≠ .patch)
    (sameTarget : TableName.kind settings patch = .patch →
      names.find? (TableName.isPatchTarget settings.delimiters patch) =
        otherNames.find? (TableName.isPatchTarget settings.delimiters patch))
    (held : (store.document? name).isSome = (other.document? name).isSome ∨
      (TableName.kind settings patch = .patch →
        names.find? (TableName.isPatchTarget settings.delimiters patch) ≠ some name)) :
    PatchedAlike name store other (store.applyPatch? settings names patch)
      (other.applyPatch? settings otherNames patch) := by
  by_cases isPatch : TableName.kind settings patch = .patch
  · have differ : patch ≠ name := fun same => noPatch (same ▸ isPatch)
    rw [Store.applyPatch?, Store.applyPatch?, if_neg (not_not_intro isPatch),
      if_neg (not_not_intro isPatch), alike.rows?_eq differ, ← sameTarget isPatch]
    split
    · exact .idle
    · exact .idle
    · rename_i row _
      split
      · exact .idle
      · rename_i target found
        by_cases own : target = name
        · -- The documents may differ here, but there is one in both stores or in neither, and
          -- patching puts one where one was.
          have both := held.resolve_right fun elsewhere => elsewhere isPatch (own ▸ found)
          rw [own]
          cases stored : store.document? name with
          | none =>
              rw [stored, Option.isSome_none, eq_comm, Option.isSome_eq_false_iff,
                Option.isNone_iff_eq_none] at both
              rw [both]
              exact .idle
          | some document =>
              rw [stored, Option.isSome_some, eq_comm, Option.isSome_iff_exists] at both
              obtain ⟨otherDocument, otherStored⟩ := both
              obtain ⟨patched, overlaid⟩ := exists_overlay_obj row document
              obtain ⟨otherPatched, otherOverlaid⟩ := exists_overlay_obj row otherDocument
              rw [otherStored]
              simp only [overlaid, otherOverlaid]
              apply PatchedAlike.patched
              · exact ((alike_putDocument store name patched).trans alike).trans
                  (alike_putDocument other name otherPatched).symm
              · intro _
                rw [document?_putDocument, document?_putDocument, if_pos rfl, if_pos rfl]
                rfl
        · rw [alike.outside target own]
          cases other.document? target with
          | none => exact .idle
          | some document =>
              obtain ⟨patched, overlaid⟩ := exists_overlay_obj row document
              simp only [overlaid]
              apply PatchedAlike.patched
              · exact alike.putDocument own patched
              · intro same
                rw [document?_putDocument, document?_putDocument, if_neg own, if_neg own]
                exact same
    · exact .failed _
  · rw [applyPatch?_of_kind_ne isPatch, applyPatch?_of_kind_ne isPatch]
    exact .idle

/-- Patching does the same in stores that look alike outside a table that is no patch. -/
theorem Alike.applyPatchesFrom (alike : Alike name nothing store other)
    (noPatch : TableName.kind settings name ≠ .patch)
    (sameTarget : ∀ patch ∈ pending, TableName.kind settings patch = .patch →
      names.find? (TableName.isPatchTarget settings.delimiters patch) =
        otherNames.find? (TableName.isPatchTarget settings.delimiters patch))
    (held : (store.document? name).isSome = (other.document? name).isSome ∨
      ∀ patch ∈ pending, TableName.kind settings patch = .patch →
        names.find? (TableName.isPatchTarget settings.delimiters patch) ≠ some name)
    (applied : Nat) :
    Alike name nothing (store.applyPatchesFrom settings names applied pending).1
        (other.applyPatchesFrom settings otherNames applied pending).1 ∧
      (store.applyPatchesFrom settings names applied pending).2 =
        (other.applyPatchesFrom settings otherNames applied pending).2 := by
  induction pending generalizing store other applied with
  | nil => exact ⟨alike, rfl⟩
  | cons patch rest ih =>
      rw [List.forall_mem_cons] at sameTarget
      have heldHere := held.imp_right fun elsewhere => elsewhere patch List.mem_cons_self
      have heldLater := held.imp_right fun elsewhere => (List.forall_mem_cons.mp elsewhere).2
      have step := alike.applyPatch? noPatch sameTarget.1 heldHere
      rw [Store.applyPatchesFrom, Store.applyPatchesFrom]
      generalize store.applyPatch? settings names patch = outcome at step
      generalize other.applyPatch? settings otherNames patch = otherOutcome at step
      cases step with
      | failed fault => exact ⟨alike, rfl⟩
      | idle => exact ih alike sameTarget.2 heldLater applied
      | patched afterAlike afterHeld =>
          exact ih afterAlike sameTarget.2 (heldLater.imp_left afterHeld) (applied + 1)

/-- A patch that is applied is a patch table, and the document of the first table that it aims
at is laid over its only row. -/
theorem applyPatch?_eq_some {after : Store}
    (patched : store.applyPatch? settings names patch = .ok (some after)) :
    TableName.kind settings patch = .patch ∧
      ∃ row target old document,
        store.rows? patch = some [row] ∧
          names.find? (TableName.isPatchTarget settings.delimiters patch) = some target ∧
            store.document? target = some old ∧ row.overlay (.obj old) = .obj document ∧
              after = store.putDocument target document := by
  by_cases isPatch : TableName.kind settings patch = .patch
  · refine ⟨isPatch, ?_⟩
    rw [applyPatch?, if_neg (not_not_intro isPatch)] at patched
    split at patched
    · cases patched
    · cases patched
    · rename_i row hasRow
      split at patched
      · cases patched
      · rename_i target found
        split at patched
        · cases patched
        · rename_i old stored
          split at patched
          · rename_i document overlaid
            cases patched
            exact ⟨row, target, old, document, hasRow, found, stored, overlaid, rfl⟩
          · cases patched
    · cases patched
  · rw [applyPatch?_of_kind_ne isPatch] at patched
    cases patched

/-- While no patch aims at a table, patching leaves its document as it is. -/
theorem document?_applyPatchesFrom
    (elsewhere : ∀ patch ∈ pending, TableName.kind settings patch = .patch →
      names.find? (TableName.isPatchTarget settings.delimiters patch) ≠ some name)
    (applied : Nat) :
    (store.applyPatchesFrom settings names applied pending).1.document? name =
      store.document? name := by
  induction pending generalizing store applied with
  | nil => rfl
  | cons patch rest ih =>
      rw [List.forall_mem_cons] at elsewhere
      rw [applyPatchesFrom]
      split
      · rfl
      · exact ih elsewhere.2 applied
      · rename_i after patched
        obtain ⟨isPatch, _, target, _, document, _, found, _, _, rfl⟩ := applyPatch?_eq_some patched
        have differ : target ≠ name := fun same => elsewhere.1 isPatch (same ▸ found)
        rw [ih elsewhere.2 (applied + 1), document?_putDocument, if_neg differ]

theorem rowsField_applyPatchesFrom (applied : Nat) :
    (store.applyPatchesFrom settings names applied pending).1.rowsField = store.rowsField := by
  induction pending generalizing store applied with
  | nil => rfl
  | cons patch rest ih =>
      rw [applyPatchesFrom]
      split
      · rfl
      · exact ih applied
      · rename_i after patched
        obtain ⟨_, _, target, _, document, _, _, _, _, rfl⟩ := applyPatch?_eq_some patched
        exact ih (applied + 1)

end Store

namespace Workbook

variable {settings : Settings} {workbook : Workbook}

/-- The store from which a run emits: every pending column is settled and every patch
applied. -/
def finalStore (settings : Settings) (workbook : Workbook) : Store :=
  ((workbook.settledStore settings).applyPatches settings workbook.names).1

/-- What a run emits for the table of a given name. -/
def artifactOf? (settings : Settings) (workbook : Workbook) (name : String) : Option Artifact :=
  (workbook.finalStore settings).artifact? settings name

/-- The rows of the table of a given name, as a run resolves them. -/
def resolvedRows? (settings : Settings) (workbook : Workbook) (name : String) :
    Option (List Value) :=
  (workbook.finalStore settings).rows? name

/-- Every table has a document once all columns are settled. -/
theorem isSome_document?_settledStore {table : Table} (unique : workbook.names.Nodup)
    (tableMem : table ∈ workbook.tables) :
    ((workbook.settledStore settings).document? table.name).isSome = true := by
  have stored : (workbook.settledStore settings).rows? table.name = some _ :=
    rows?_settledStore unique tableMem
  rw [Store.rows?] at stored
  cases found : (workbook.settledStore settings).document? table.name with
  | none =>
      rw [found] at stored
      cases stored
  | some document => rfl

/-- A table that no patch aims at keeps its rows to the end, each resolved in its place. -/
theorem resolvedRows?_eq {table : Table} (unique : workbook.names.Nodup)
    (tableMem : table ∈ workbook.tables)
    (elsewhere : ∀ patch ∈ workbook.names, TableName.kind settings patch = .patch →
      workbook.names.find? (TableName.isPatchTarget settings.delimiters patch) ≠
        some table.name) :
    workbook.resolvedRows? settings table.name =
      some (table.rows.map fun row => .obj (workbook.resolvedRow settings table.name row)) := by
  rw [← rows?_settledStore unique tableMem, resolvedRows?, finalStore, Store.rows?, Store.rows?,
    Store.applyPatches, Store.document?_applyPatchesFrom elsewhere,
    Store.rowsField_applyPatchesFrom]

/-- Without repeated names and faulty keys only the patches can fail. -/
theorem publish_of_faultless (unique : workbook.names.Nodup)
    (faultless : workbook.keyFault? settings = none) :
    workbook.publish settings =
      ((workbook.settledStore settings).applyPatches settings workbook.names).2.map fun patches =>
        { artifacts := workbook.names.filterMap (workbook.artifactOf? settings)
          tables := workbook.names.length
          settlement := { settled := (workbook.firstPass settings).backlog.entries }
          patches } := by
  have noRepeated : firstRepeated? [] workbook.names = none :=
    firstRepeated?_eq_none_iff.mpr ⟨unique, fun _ _ => List.not_mem_nil⟩
  rw [publish_eq, noRepeated, faultless]
  unfold artifactOf? finalStore
  cases (workbook.settledStore settings).applyPatches settings workbook.names with
  | mk patched counted =>
      cases counted with
      | error fault => rfl
      | ok patches => rfl

/-- A run fails with the first fault of its keys as long as no name is repeated. -/
theorem publish_of_keyFault {fault : Fault} (unique : workbook.names.Nodup)
    (faulty : workbook.keyFault? settings = some fault) :
    workbook.publish settings = .error fault := by
  have noRepeated : firstRepeated? [] workbook.names = none :=
    firstRepeated?_eq_none_iff.mpr ⟨unique, fun _ _ => List.not_mem_nil⟩
  rw [publish_eq, noRepeated, faulty]

/-- What a run that succeeds yields. -/
theorem publish_eq_ok_iff {publication : Publication} :
    workbook.publish settings = .ok publication ↔
      workbook.names.Nodup ∧ workbook.keyFault? settings = none ∧
        ∃ patches,
          ((workbook.settledStore settings).applyPatches settings workbook.names).2 =
            .ok patches ∧
          publication =
            { artifacts := workbook.names.filterMap (workbook.artifactOf? settings)
              tables := workbook.names.length
              settlement := { settled := (workbook.firstPass settings).backlog.entries }
              patches } := by
  constructor
  · intro published
    obtain ⟨unique, faultless, patched, patches, outcome, rfl⟩ := publish_eq_ok published
    refine ⟨unique, faultless, patches, by rw [outcome], ?_⟩
    unfold artifactOf? finalStore
    rw [outcome]
    rfl
  · rintro ⟨unique, faultless, patches, outcome, rfl⟩
    rw [publish_of_faultless unique faultless, outcome]
    rfl

theorem exists_publish_eq_ok (succeeds : (workbook.publish settings).isOk = true) :
    ∃ publication, workbook.publish settings = .ok publication := by
  cases published : workbook.publish settings with
  | error fault =>
      rw [published] at succeeds
      cases succeeds
  | ok publication => exact ⟨publication, rfl⟩

end Workbook

end Tabula

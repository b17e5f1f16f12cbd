import Tabula.Proofs.Run.Consumption
import Tabula.Proofs.Run.Emission
import Tabula.Proofs.Run.Forward

/-!
# Publishing what was published

A workbook in which every key is plain is published as it stands: nothing moves, nothing
is linked and nothing waits. Once a run is over, all keys at the top of a row are plain,
whatever the copies of other rows below them still hold. So the tables that a run emits,
read as a workbook again, are emitted unchanged.
-/

namespace Tabula

/-- Every key of a row is plain. -/
def Fields.Plain (d : Delimiters) (row : Fields) : Prop :=
  ∀ key ∈ Entries.keys row, Column.ofKey d key = .ok .plain

/-- Every key of every row of a workbook is plain. -/
def Workbook.Plain (d : Delimiters) (workbook : Workbook) : Prop :=
  ∀ table ∈ workbook.tables, ∀ row ∈ table.rows, Fields.Plain d row

/-- The table of the rows that a document holds under the given field. -/
def Artifact.toTable (rowsField : String) (artifact : Artifact) : Table :=
  let rows? := (artifact.document.fields?.bind (Entries.get? · rowsField)).bind Value.items?
  Table.ofValues artifact.name (rows?.getD [])

/-- The workbook of the emitted tables. -/
def Publication.toWorkbook (rowsField : String) (publication : Publication) : Workbook :=
  { tables := publication.artifacts.map (Artifact.toTable rowsField) }

/-! ## Plain workbooks -/

/-- Plain columns change nothing. -/
theorem Store.applyColumns_of_plain {settings : Settings} {row : Fields} (store : Store)
    (plain : Fields.Plain settings.delimiters row) : store.applyColumns settings row = row := by
  let unchanged : Fields → Prop := fun record => record = row
  have kept : unchanged (store.applyColumns settings row) := by
    apply List.foldlRecOn (Entries.keys row) (store.applyColumn settings) (motive := unchanged)
    · exact rfl
    · intro record same key keyMem
      have nothing := Column.createdBy?_eq_none_of_plain (plain key keyMem)
      exact (Store.applyColumn_of_createdBy?_eq_none nothing).trans same
  exact kept

namespace Workbook

variable {settings : Settings} {workbook : Workbook}

/-- No plain key is faulty. -/
theorem keyFault?_of_plain (plain : workbook.Plain settings.delimiters) :
    workbook.keyFault? settings = none := by
  rw [keyFault?_eq_none_iff]
  intro table tableMem row rowMem key keyMem
  have read := plain table tableMem row rowMem key keyMem
  exact Column.fault?_eq_none_iff.mpr ⟨.plain, read, fun link isLink => by cases isLink⟩

/-- Where all keys are plain nothing waits. -/
theorem entries_firstPass_of_plain (plain : workbook.Plain settings.delimiters) :
    (workbook.firstPass settings).backlog.entries = [] := by
  apply List.eq_nil_iff_forall_not_mem.mpr
  intro entry waits
  obtain ⟨table, tableMem, _, row, rowMem, keyMem, link, read⟩ :=
    exists_of_mem_entries_firstPass waits
  rw [plain table tableMem row rowMem entry.key keyMem] at read
  cases read

theorem resolvedRow_of_plain (plain : workbook.Plain settings.delimiters) {table : Table}
    (tableMem : table ∈ workbook.tables) {row : Fields} (rowMem : row ∈ table.rows) :
    workbook.resolvedRow settings table.name row = row := by
  rw [resolvedRow, entries_firstPass_of_plain plain, Store.settledRow]
  exact Store.applyColumns_of_plain _ (plain table tableMem row rowMem)

/-- A plain workbook without repeated names and patches is emitted as it stands. -/
theorem publish_of_plain (plain : workbook.Plain settings.delimiters)
    (unique : workbook.names.Nodup)
    (noPatch : ∀ table ∈ workbook.tables, TableName.kind settings table.name ≠ .patch) :
    workbook.publish settings =
      .ok
        { artifacts :=
            workbook.tables.filterMap fun table => table.artifact? settings table.rows
          tables := workbook.names.length
          settlement := {}
          patches := 0 } := by
  obtain ⟨publication, published⟩ :=
    (exists_publish_eq_ok_iff noPatch).mpr ⟨unique, keyFault?_of_plain plain⟩
  have artifactsEq : publication.artifacts =
      workbook.tables.filterMap fun table => table.artifact? settings table.rows := by
    rw [artifacts_of_no_patch noPatch published]
    apply List.filterMap_congr
    intro table tableMem
    have sameRows : table.rows.map (workbook.resolvedRow settings table.name) = table.rows := by
      rw [List.map_congr_left fun row => resolvedRow_of_plain plain tableMem, List.map_id']
    rw [sameRows]
  obtain ⟨_, _, patched, patches, applied, rfl⟩ := publish_eq_ok published
  have noPatchName : ∀ name ∈ workbook.names, TableName.kind settings name ≠ .patch :=
    List.forall_mem_map.mpr noPatch
  rw [Store.applyPatches_of_no_patch noPatchName] at applied
  cases applied
  rw [published, ← artifactsEq, entries_firstPass_of_plain plain]

end Workbook

/-! ## Emitted workbooks -/

/-- Once all columns of a row have been consumed, plain keys are left. -/
theorem Fields.Consumed.plain {d : Delimiters} {row record : Fields} {applied : List String}
    (unmixed : Unmixed d row) (consumed : Consumed d row applied record)
    (all : ∀ key ∈ Entries.keys row, key ∈ applied)
    (meaning : ∀ key ∈ Entries.keys row, ∃ column, Column.ofKey d key = .ok column) :
    Plain d record := by
  obtain ⟨⟨created, keysEq, createdIff⟩, _⟩ := consumed
  intro key keyMem
  rw [keysEq, remainingKeys_eq_plainKeys all meaning] at keyMem
  rcases List.mem_append.mp keyMem with plain | made
  · exact (mem_plainKeys.mp plain).2
  · exact ((createdIff key).mp made).2.plain unmixed

/-- The artifact of a table that is emitted under its own name. -/
def Table.ownArtifact (rowsField : String) (table : Table) : Artifact :=
  { name := table.name, document := .obj [(rowsField, .arr (table.rows.map .obj))] }

theorem Table.toTable_ownArtifact (rowsField : String) (table : Table) :
    (table.ownArtifact rowsField).toTable rowsField = table := by
  simp [ownArtifact, Artifact.toTable, ofValues, Value.fields?, Value.items?, Entries.get?,
    List.filterMap_map, Function.comp_def]

/-- A table whose name has no option block is emitted under this name. -/
theorem Table.artifact?_of_bare {settings : Settings} {table : Table}
    (bare : settings.delimiters.tableOption ∉ table.name.toList) (rows : List Fields) :
    table.artifact? settings rows =
      if TableName.kind settings table.name = .regular then
        some ({ table with rows }.ownArtifact settings.rowsField)
      else none := by
  rw [artifact?, TableName.parts?_eq_none bare, ite_not]
  rfl

namespace Workbook

variable {settings : Settings} {workbook : Workbook}

/-- A run leaves plain keys alone at the top of a row in which no key holds both delimiters. -/
theorem plain_resolvedRow (unique : workbook.names.Nodup)
    (faultless : workbook.keyFault? settings = none) {table : Table}
    (tableMem : table ∈ workbook.tables) {row : Fields} (rowMem : row ∈ table.rows)
    (unmixed : Fields.Unmixed settings.delimiters row) :
    Fields.Plain settings.delimiters (workbook.resolvedRow settings table.name row) := by
  have reached : Reached settings (fun _ => True) row _
      (workbook.resolvedRow settings table.name row) :=
    reached_resolvedRow faultless trivial (fun _ _ _ _ => trivial) (fun _ _ _ _ => trivial) _ row
  apply (reached.consumed unmixed).plain unmixed
  · exact fun key keyMem => mem_history unique tableMem rowMem keyMem
  · intro key keyMem
    have keyFaultless := keyFault?_eq_none_iff.mp faultless table tableMem row rowMem key keyMem
    obtain ⟨column, read, _⟩ := Column.fault?_eq_none_iff.mp keyFaultless
    exact ⟨column, read⟩

/-- The regular tables of a workbook, with their rows as a run resolves them. -/
def resolvedTables (settings : Settings) (workbook : Workbook) : List Table :=
  (workbook.tables.filter fun table => TableName.kind settings table.name = .regular).map
    fun table => { table with rows := table.rows.map (workbook.resolvedRow settings table.name) }

theorem mem_resolvedTables {resolved : Table} :
    resolved ∈ workbook.resolvedTables settings ↔
      ∃ table ∈ workbook.tables, TableName.kind settings table.name = .regular ∧
        { table with rows := table.rows.map (workbook.resolvedRow settings table.name) } =
          resolved := by
  simp only [resolvedTables, List.mem_map, List.mem_filter, decide_eq_true_iff, and_assoc]

theorem names_resolvedTables_sublist (settings : Settings) (workbook : Workbook) :
    ((workbook.resolvedTables settings).map Table.name).Sublist workbook.names := by
  rw [resolvedTables, List.map_map]
  exact List.filter_sublist.map Table.name

/-- Without option blocks in the table names the resolved tables are all that is emitted. -/
theorem artifacts_eq_map_resolvedTables {publication : Publication}
    (noPatch : ∀ table ∈ workbook.tables, TableName.kind settings table.name ≠ .patch)
    (bare : ∀ table ∈ workbook.tables, settings.delimiters.tableOption ∉ table.name.toList)
    (published : workbook.publish settings = .ok publication) :
    publication.artifacts =
      (workbook.resolvedTables settings).map (Table.ownArtifact settings.rowsField) := by
  rw [artifacts_of_no_patch noPatch published, resolvedTables, List.map_map,
    ← List.filterMap_eq_map, List.filterMap_filter]
  apply List.filterMap_congr
  intro table tableMem
  rw [Table.artifact?_of_bare (bare table tableMem)]
  simp only [decide_eq_true_iff]
  rfl

/-- The emitted tables, read as a workbook, are emitted unchanged: nothing waits, nothing is
patched, and every field keeps its place at every depth. -/
theorem publish_toWorkbook {publication : Publication}
    (noPatch : ∀ table ∈ workbook.tables, TableName.kind settings table.name ≠ .patch)
    (bare : ∀ table ∈ workbook.tables, settings.delimiters.tableOption ∉ table.name.toList)
    (unmixed : ∀ table ∈ workbook.tables, ∀ row ∈ table.rows,
      Fields.Unmixed settings.delimiters row)
    (published : workbook.publish settings = .ok publication) :
    (publication.toWorkbook settings.rowsField).publish settings =
      .ok
        { artifacts := publication.artifacts
          tables := publication.artifacts.length
          settlement := {}
          patches := 0 } := by
  obtain ⟨unique, faultless, _⟩ := publish_eq_ok published
  have artifactsEq := artifacts_eq_map_resolvedTables noPatch bare published
  have tablesEq : (publication.toWorkbook settings.rowsField).tables =
      workbook.resolvedTables settings := by
    rw [Publication.toWorkbook, artifactsEq, List.map_map]
    exact (List.map_congr_left fun table _ => Table.toTable_ownArtifact _ table).trans
      (List.map_id' _)
  have plain : (publication.toWorkbook settings.rowsField).Plain settings.delimiters := by
    intro resolved resolvedMem record recordMem
    rw [tablesEq] at resolvedMem
    obtain ⟨table, tableMem, _, rfl⟩ := mem_resolvedTables.mp resolvedMem
    obtain ⟨row, rowMem, rfl⟩ := List.mem_map.mp recordMem
    exact plain_resolvedRow unique faultless tableMem rowMem (unmixed table tableMem row rowMem)
  have uniqueAgain : (publication.toWorkbook settings.rowsField).names.Nodup := by
    rw [names, tablesEq]
    exact (names_resolvedTables_sublist settings workbook).nodup unique
  have regularAgain : ∀ resolved ∈ workbook.resolvedTables settings,
      TableName.kind settings resolved.name = .regular ∧
        settings.delimiters.tableOption ∉ resolved.name.toList := by
    intro resolved resolvedMem
    obtain ⟨table, tableMem, regular, rfl⟩ := mem_resolvedTables.mp resolvedMem
    exact ⟨regular, bare table tableMem⟩
  have noPatchAgain : ∀ table ∈ (publication.toWorkbook settings.rowsField).tables,
      TableName.kind settings table.name ≠ .patch := by
    intro table tableMem isPatch
    rw [tablesEq] at tableMem
    rw [(regularAgain table tableMem).1] at isPatch
    cases isPatch
  have artifactsAgain : ((publication.toWorkbook settings.rowsField).tables.filterMap
      fun table => table.artifact? settings table.rows) = publication.artifacts := by
    rw [tablesEq, artifactsEq, ← List.filterMap_eq_map]
    apply List.filterMap_congr
    intro resolved resolvedMem
    obtain ⟨regular, bareName⟩ := regularAgain resolved resolvedMem
    rw [Table.artifact?_of_bare bareName, if_pos regular]
    rfl
  rw [publish_of_plain plain uniqueAgain noPatchAgain, artifactsAgain, names, tablesEq,
    artifactsEq, List.length_map, List.length_map]

/-- Tables that link to each other both ways, so that embedded copies keep raw link keys, beside
paths and an internal table. -/
def interwoven : Workbook :=
  { tables :=
      [{ name := "A"
         rows :=
           [[("id", .str "1"), ("n.o", .str "3"), ("b:B$ref=id", .str "x"),
             ("c:__C$ref=id", .str "k")]] },
       { name := "B", rows := [[("a:A$ref=id", .str "1"), ("id", .str "x"), ("d.e", .null)]] },
       { name := "__C", rows := [[("id", .str "k"), ("b:B$ref=id", .str "x")]] }] }

theorem publish_toWorkbook_interwoven :
    ∃ publication, interwoven.publish {} = .ok publication ∧
      publication.settlement.settled = [⟨"A", "b:B$ref=id"⟩, ⟨"A", "c:__C$ref=id"⟩] ∧
        (publication.toWorkbook "data").publish {} =
          .ok
            { artifacts := publication.artifacts
              tables := 2
              settlement := {}
              patches := 0 } := by
  obtain ⟨publication, published⟩ :
      ∃ publication, interwoven.publish {} = .ok publication := ⟨_, rfl⟩
  have facts : (interwoven.publish {}).toOption.map (fun publication =>
      (publication.settlement.settled, publication.artifacts.length)) =
        some ([⟨"A", "b:B$ref=id"⟩, ⟨"A", "c:__C$ref=id"⟩], 2) := by
    decide +kernel
  rw [published] at facts
  obtain ⟨settled, two⟩ := Prod.mk.inj (Option.some_inj.mp facts)
  have again := publish_toWorkbook (by decide) (by decide) (by decide) published
  rw [two] at again
  exact ⟨publication, published, settled, again⟩

end Workbook

end Tabula

import Tabula.Proofs.Run.Emission
import Tabula.Proofs.Run.Ending

/-!
# The name of the rows field

The store finds the rows of a table by the name of the rows field, so a run looks this name up
at every link, at every settled column and at the end. Two runs that name the field
differently go through stores with the same rows, and so they raise the same faults, let the
same columns wait, and emit the same rows. The name itself is seen only where a table does not
choose one.
-/

namespace Tabula

/-- The settings with another name for the field that holds the rows. -/
def Settings.withRowsField (settings : Settings) (name : String) : Settings :=
  { settings with rowsField := name }

/-- What two runs with the rows fields `first` and `second` emit for a list of tables, pair by
pair: the same under a field that the table chooses itself, and otherwise the same rows, each
under its own field. -/
inductive Table.EmittedAlike (settings : Settings) (first second : String) :
    List Table → List Artifact → List Artifact → Prop where
  | nil : EmittedAlike settings first second [] [] []
  | withheld {table : Table} {tables : List Table} {artifacts others : List Artifact}
      (stays : TableName.kind settings table.name ≠ .regular ∨
        ∃ parts, TableName.parts? settings.delimiters table.name = some parts ∧
          parts.rowsField? = none)
      (later : EmittedAlike settings first second tables artifacts others) :
      EmittedAlike settings first second (table :: tables) artifacts others
  | chosen {table : Table} {tables : List Table} {artifacts others : List Artifact}
      {parts : TableName.Parts} {rowsField : String} (rows : List Value)
      (regular : TableName.kind settings table.name = .regular)
      (named : TableName.parts? settings.delimiters table.name = some parts)
      (chooses : parts.rowsField? = some rowsField)
      (later : EmittedAlike settings first second tables artifacts others) :
      EmittedAlike settings first second (table :: tables)
        ({ name := parts.base, document := .obj [(rowsField, .arr rows)] } :: artifacts)
        ({ name := parts.base, document := .obj [(rowsField, .arr rows)] } :: others)
  | unchosen {table : Table} {tables : List Table} {artifacts others : List Artifact}
      (rows : List Value) (regular : TableName.kind settings table.name = .regular)
      (bare : TableName.parts? settings.delimiters table.name = none)
      (later : EmittedAlike settings first second tables artifacts others) :
      EmittedAlike settings first second (table :: tables)
        ({ name := table.name, document := .obj [(first, .arr rows)] } :: artifacts)
        ({ name := table.name, document := .obj [(second, .arr rows)] } :: others)

section WithRowsField

variable (settings : Settings) (name : String)

@[simp]
theorem Settings.delimiters_withRowsField :
    (settings.withRowsField name).delimiters = settings.delimiters := rfl

@[simp]
theorem TableName.kind_withRowsField :
    TableName.kind (settings.withRowsField name) = TableName.kind settings := rfl

@[simp]
theorem Store.postponedIn_withRowsField (store : Store) :
    store.postponedIn (settings.withRowsField name) = store.postponedIn settings := rfl

@[simp]
theorem Store.addTable_withRowsField :
    Store.addTable (settings.withRowsField name) = Store.addTable settings := rfl

@[simp]
theorem Store.settleColumn_withRowsField :
    Store.settleColumn (settings.withRowsField name) = Store.settleColumn settings := rfl

theorem Store.postponedFrom_withRowsField (store : Store) (tables : List Table) :
    store.postponedFrom (settings.withRowsField name) tables =
      store.postponedFrom settings tables := by
  induction tables generalizing store with
  | nil => rfl
  | cons table rest ih =>
      rw [Store.postponedFrom, Store.postponedFrom, postponedIn_withRowsField,
        addTable_withRowsField, ih]

end WithRowsField

namespace Store

/-- Two stores that hold the same rows of every table, each under its own rows field. -/
def SameRows (store other : Store) : Prop :=
  ∀ table, store.rows? table = other.rows? table

namespace SameRows

variable {settings : Settings} {store other : Store}

theorem applyColumn_eq (same : SameRows store other) (record : Fields) (key : String) :
    store.applyColumn settings record key = other.applyColumn settings record key := by
  unfold applyColumn
  split
  · rfl
  · rw [same]
  · rfl

theorem postpones_eq (same : SameRows store other) :
    store.postpones settings = other.postpones settings := by
  funext key
  unfold postpones isAvailable
  split
  · rw [same]
  · rfl

theorem postponedIn_eq (same : SameRows store other) (table : Table) :
    store.postponedIn settings table = other.postponedIn settings table := by
  unfold postponedIn postponed
  rw [same.postpones_eq]

/-! ### Steps that both runs make -/

theorem addTable (same : SameRows store other) (table : Table) :
    SameRows (store.addTable settings table) (other.addTable settings table) := by
  have sameChange : store.applyColumns settings = other.applyColumns settings := by
    funext row
    exact List.foldl_ext _ _ _ fun record key _ => same.applyColumn_eq record key
  intro name
  rw [rows?_addTable, rows?_addTable, sameChange, same]

theorem settleColumn (same : SameRows store other) (entry : Pending) :
    SameRows (store.settleColumn settings entry) (other.settleColumn settings entry) := by
  have sameChange : (fun record => store.applyColumn settings record entry.key) =
      fun record => other.applyColumn settings record entry.key :=
    funext fun record => same.applyColumn_eq record entry.key
  intro name
  rw [rows?_settleColumn, rows?_settleColumn, sameChange, same]

/-! ### Series of steps -/

/-- Storing tables keeps the rows the same and lets the same columns wait. -/
theorem foldl_addTable (same : SameRows store other) (settings : Settings)
    (tables : List Table) :
    SameRows (tables.foldl (Store.addTable settings) store)
        (tables.foldl (Store.addTable settings) other) ∧
      store.postponedFrom settings tables = other.postponedFrom settings tables := by
  induction tables generalizing store other with
  | nil => exact ⟨same, rfl⟩
  | cons table rest ih =>
      obtain ⟨restSame, restWaits⟩ := ih (same.addTable table)
      exact ⟨restSame, by
        rw [postponedFrom, postponedFrom, same.postponedIn_eq, restWaits]⟩

theorem foldl_settleColumn (same : SameRows store other) (settings : Settings)
    (pending : List Pending) :
    SameRows (pending.foldl (Store.settleColumn settings) store)
      (pending.foldl (Store.settleColumn settings) other) := by
  induction pending generalizing store other with
  | nil => exact same
  | cons entry rest ih => exact ih (same.settleColumn entry)

end SameRows

end Store

/-- With the same rows, tables are emitted alike under any two names of the rows field. -/
theorem Table.emittedAlike_filterMap (settings : Settings) (first second : String)
    (rowsOf : Table → List Fields) (tables : List Table) :
    EmittedAlike settings first second tables
      (tables.filterMap fun table =>
        table.artifact? (settings.withRowsField first) (rowsOf table))
      (tables.filterMap fun table =>
        table.artifact? (settings.withRowsField second) (rowsOf table)) := by
  induction tables with
  | nil => exact .nil
  | cons table rest ih =>
      rw [List.filterMap_cons, List.filterMap_cons, artifact?, artifact?,
        TableName.kind_withRowsField, TableName.kind_withRowsField,
        Settings.delimiters_withRowsField, Settings.delimiters_withRowsField]
      by_cases regular : TableName.kind settings table.name = .regular
      · rw [if_neg (not_not_intro regular), if_neg (not_not_intro regular)]
        cases named : TableName.parts? settings.delimiters table.name with
        | none => exact .unchosen _ regular named ih
        | some parts =>
            dsimp only
            cases chooses : parts.rowsField? with
            | none => exact .withheld (Or.inr ⟨parts, named, chooses⟩) ih
            | some rowsField => exact .chosen _ regular named chooses ih
      · rw [if_pos regular, if_pos regular]
        exact .withheld (Or.inl regular) ih

namespace Workbook

variable {settings : Settings} {workbook : Workbook}

/-- Under both names the first pass stores the same rows and lets the same columns wait. -/
theorem sameRows_firstPass (settings : Settings) (workbook : Workbook) (first second : String) :
    Store.SameRows (workbook.firstPass (settings.withRowsField first)).store
        (workbook.firstPass (settings.withRowsField second)).store ∧
      (workbook.firstPass (settings.withRowsField first)).backlog.entries =
        (workbook.firstPass (settings.withRowsField second)).backlog.entries := by
  have start : Store.SameRows { rowsField := first } { rowsField := second } := fun _ => rfl
  obtain ⟨same, waits⟩ := start.foldl_addTable settings workbook.tables
  rw [store_firstPass, store_firstPass, entries_firstPass, entries_firstPass,
    Store.addTable_withRowsField, Store.addTable_withRowsField,
    Store.postponedFrom_withRowsField, Store.postponedFrom_withRowsField]
  exact ⟨same, congrArg List.eraseDups waits⟩

/-- Settled, both stores hold the same rows. -/
theorem sameRows_settledStore (settings : Settings) (workbook : Workbook)
    (first second : String) :
    Store.SameRows (workbook.settledStore (settings.withRowsField first))
      (workbook.settledStore (settings.withRowsField second)) := by
  obtain ⟨same, waits⟩ := sameRows_firstPass settings workbook first second
  rw [settledStore, settledStore, waits, Store.settleColumn_withRowsField,
    Store.settleColumn_withRowsField]
  exact same.foldl_settleColumn settings _

/-- Every row is resolved to the same record under both names. -/
theorem map_resolvedRow_withRowsField (settings : Settings) {table : Table}
    (unique : workbook.names.Nodup) (tableMem : table ∈ workbook.tables)
    (first second : String) :
    table.rows.map (workbook.resolvedRow (settings.withRowsField first) table.name) =
      table.rows.map (workbook.resolvedRow (settings.withRowsField second) table.name) := by
  have sameRows := sameRows_settledStore settings workbook first second table.name
  rw [rows?_settledStore unique tableMem, rows?_settledStore unique tableMem,
    Option.some.injEq] at sameRows
  apply List.map_congr_left
  intro row rowMem
  exact Value.obj.inj (List.map_inj_left.mp sameRows row rowMem)

/-- What a run yields without patches, if it succeeds. -/
theorem publish_of_faultless_of_no_patch (unique : workbook.names.Nodup)
    (faultless : workbook.keyFault? settings = none)
    (noPatch : ∀ table ∈ workbook.tables, TableName.kind settings table.name ≠ .patch) :
    workbook.publish settings =
      .ok
        { artifacts := workbook.tables.filterMap fun table =>
            table.artifact? settings (table.rows.map (workbook.resolvedRow settings table.name))
          tables := workbook.names.length
          settlement := { settled := (workbook.firstPass settings).backlog.entries }
          patches := 0 } := by
  obtain ⟨publication, published⟩ :=
    (exists_publish_eq_ok_iff noPatch).mpr ⟨unique, faultless⟩
  have artifacts := artifacts_of_no_patch noPatch published
  obtain ⟨_, _, patched, patches, applied, rfl⟩ := publish_eq_ok published
  have noPatchName : ∀ name ∈ workbook.names, TableName.kind settings name ≠ .patch :=
    List.forall_mem_map.mpr noPatch
  rw [Store.applyPatches_of_no_patch noPatchName] at applied
  cases applied
  rw [published, ← artifacts]

/-- The name of the rows field influences nothing but itself. Without patches a run under
another name fails with the same fault, or it yields the same counts, settles the same columns,
and emits the same artifacts in the same order, except that the rows stand under the other name
where the table does not choose one. -/
theorem publish_withRowsField
    (noPatch : ∀ table ∈ workbook.tables, TableName.kind settings table.name ≠ .patch)
    (first second : String) :
    (∃ fault, workbook.publish (settings.withRowsField first) = .error fault ∧
        workbook.publish (settings.withRowsField second) = .error fault) ∨
      ∃ publication other,
        workbook.publish (settings.withRowsField first) = .ok publication ∧
          workbook.publish (settings.withRowsField second) = .ok other ∧
            other.tables = publication.tables ∧
              other.settlement = publication.settlement ∧
                other.patches = publication.patches ∧
                  Table.EmittedAlike settings first second workbook.tables
                    publication.artifacts other.artifacts := by
  cases repeated : firstRepeated? [] workbook.names with
  | some name =>
      left
      rw [publish_eq, publish_eq, repeated]
      exact ⟨_, rfl, rfl⟩
  | none =>
      have unique := (firstRepeated?_eq_none_iff.mp repeated).1
      cases faulty : workbook.keyFault? settings with
      | some fault =>
          left
          exact ⟨fault, publish_of_keyFault unique faulty, publish_of_keyFault unique faulty⟩
      | none =>
          right
          have emitted (name : String) : workbook.publish (settings.withRowsField name) = .ok _ :=
            publish_of_faultless_of_no_patch unique faulty noPatch
          have sameEntries := (sameRows_firstPass settings workbook first second).2
          have sameRows : (workbook.tables.filterMap fun table =>
                table.artifact? (settings.withRowsField second)
                  (table.rows.map
                    (workbook.resolvedRow (settings.withRowsField second) table.name))) =
              workbook.tables.filterMap fun table =>
                table.artifact? (settings.withRowsField second)
                  (table.rows.map
                    (workbook.resolvedRow (settings.withRowsField first) table.name)) :=
            List.filterMap_congr fun table tableMem => by
              rw [map_resolvedRow_withRowsField settings unique tableMem second first]
          refine ⟨_, _, emitted first, emitted second, rfl, by rw [sameEntries], rfl, ?_⟩
          rw [sameRows]
          exact Table.emittedAlike_filterMap settings first second _ _

/-- A table with a chosen field for its rows that links to a later one, a table without a
chosen field that links to itself, an internal table, and one that is not emitted. -/
def shelved : Workbook :=
  { tables :=
      [{ name := "Books$key=list"
         rows :=
           [[("id", .str "1"), ("by:Authors$ref=id", .str "b,a")],
             [("id", .str "2"), ("data", .str "x"), ("list", .null)]] },
       { name := "Authors"
         rows :=
           [[("id", .str "a"), ("name.last", .str "Roe"), ("peer:Authors$ref=id", .str "b")],
             [("id", .str "b"), ("data", .arr [])]] },
       { name := "__notes", rows := [[("of:Authors$ref=id", .str "a")]] },
       { name := "Loans$x=1", rows := [[("id", .str "2")]] }] }

theorem publish_withRowsField_shelved :
    ∃ publication other,
      shelved.publish (Settings.withRowsField {} "data") = .ok publication ∧
        shelved.publish (Settings.withRowsField {} "list") = .ok other ∧
          other.settlement = publication.settlement ∧
            Table.EmittedAlike {} "data" "list" shelved.tables publication.artifacts
              other.artifacts := by
  have noPatch : ∀ table ∈ shelved.tables, TableName.kind {} table.name ≠ .patch := by
    decide +kernel
  have succeeds : (shelved.publish (Settings.withRowsField {} "data")).isOk = true := by
    decide +kernel
  rcases publish_withRowsField noPatch "data" "list" with
    ⟨fault, failed, _⟩ | ⟨publication, other, published, otherPublished, _, settlement, _, alike⟩
  · rw [failed] at succeeds
    cases succeeds
  · exact ⟨publication, other, published, otherPublished, settlement, alike⟩

end Workbook

end Tabula

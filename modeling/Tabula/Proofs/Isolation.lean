import Mathlib.Data.List.Basic
import Tabula.Proofs.Run.SideBySide

/-!
# Tables that nothing refers to

A table that no other table links to and that no patch aims at can be left out of a
workbook. All other tables are emitted as before, each with the same document.
-/

namespace Tabula.Workbook

variable {settings : Settings} {workbook : Workbook} {table : Table}

/-- The workbook without the tables of one name. -/
def without (workbook : Workbook) (name : String) : Workbook :=
  { tables := workbook.tables.filter fun table => table.name ≠ name }

theorem names_without (workbook : Workbook) (name : String) :
    (workbook.without name).names = workbook.names.filter (· ≠ name) := by
  rw [names, names, without, List.filter_map]
  rfl

theorem tables_without {before after : List Table}
    (tablesEq : workbook.tables = before ++ [table] ++ after)
    (apart : ∀ other ∈ before ++ after, other.name ≠ table.name) :
    (workbook.without table.name).tables = before ++ [] ++ after := by
  have others : (before ++ after).filter (fun other => other.name ≠ table.name) =
      before ++ after :=
    List.filter_eq_self.mpr fun other otherMem => by simpa using apart other otherMem
  rw [List.filter_append] at others
  rw [without, tablesEq]
  simpa using others

/-- Leaving out a table that no other table links to makes no key faulty. -/
theorem keyFault?_without (faultless : workbook.keyFault? settings = none)
    (untargeted : ∀ other ∈ workbook.tables, other.name ≠ table.name →
      other.Avoids settings table.name) :
    (workbook.without table.name).keyFault? settings = none := by
  rw [keyFault?_eq_none_iff] at faultless ⊢
  intro other otherMem row rowMem key keyMem
  obtain ⟨inWorkbook, differs⟩ := List.mem_filter.mp otherMem
  obtain ⟨column, read, target⟩ :=
    Column.fault?_eq_none_iff.mp (faultless other inWorkbook row rowMem key keyMem)
  apply Column.fault?_eq_none_iff.mpr
  refine ⟨column, read, fun link isLink => ?_⟩
  subst isLink
  have avoids := untargeted other inWorkbook (by simpa using differs) row rowMem link
    (Fields.mem_links.mpr ⟨key, keyMem, read⟩)
  rw [names_without, List.mem_filter]
  exact ⟨target link rfl, by simpa using avoids⟩

/-- Without the table none of its columns waits. -/
theorem filter_entries_without (settings : Settings) (workbook : Workbook) (name : String) :
    (((workbook.without name).firstPass settings).backlog.entries.filter
        fun entry => entry.table ≠ name) =
      ((workbook.without name).firstPass settings).backlog.entries := by
  apply List.filter_eq_self.mpr
  intro entry waits
  obtain ⟨other, otherMem, sameTable, _⟩ := exists_of_mem_entries_firstPass waits
  rw [sameTable]
  exact (List.mem_filter.mp otherMem).2

/-- A patch that does not aim at a table finds the same target without the table. -/
theorem find?_without {patch name : String}
    (noTarget : TableName.isPatchTarget settings.delimiters patch name = false) :
    (workbook.without name).names.find? (TableName.isPatchTarget settings.delimiters patch) =
      workbook.names.find? (TableName.isPatchTarget settings.delimiters patch) := by
  rw [names_without, List.find?_filter]
  apply congrArg (List.find? · workbook.names)
  funext candidate
  by_cases same : candidate = name
  · simp [same, noTarget]
  · simp [same]

theorem find?_ne_of_isPatchTarget_eq_false {patch name : String}
    (noTarget : TableName.isPatchTarget settings.delimiters patch name = false) :
    workbook.names.find? (TableName.isPatchTarget settings.delimiters patch) ≠ some name := by
  intro found
  have aims := List.find?_some found
  rw [noTarget] at aims
  cases aims

/-- The workbook beside itself without a table that no other table links to: there is nothing
in the place of the table. -/
theorem sideBySide_without {before after : List Table} (unique : workbook.names.Nodup)
    (tablesEq : workbook.tables = before ++ [table] ++ after)
    (untargeted : ∀ other ∈ workbook.tables, other.name ≠ table.name →
      other.Avoids settings table.name) :
    SideBySide settings table.name Store.nothing workbook (workbook.without table.name)
      before [table] [] after := by
  have apart := apart_of_tables_eq unique tablesEq
  exact sideBySide_of_avoids tablesEq (tables_without tablesEq apart) (by simp) apart untargeted

/-- A run does not change for the other tables when a table that no other table links to and
no patch aims at is left out: they are emitted with the same documents in the same order, the
same columns of them are settled in the same order, and as many patches are applied. -/
theorem publish_without {publication : Publication} (tableMem : table ∈ workbook.tables)
    (noPatch : TableName.kind settings table.name ≠ .patch)
    (untargeted : ∀ other ∈ workbook.tables, other.name ≠ table.name →
      other.Avoids settings table.name)
    (noTarget : ∀ name ∈ workbook.names,
      TableName.isPatchTarget settings.delimiters name table.name = false)
    (published : workbook.publish settings = .ok publication) :
    publication.artifacts = workbook.names.filterMap (workbook.artifactOf? settings) ∧
      (workbook.without table.name).publish settings =
        .ok
          { artifacts := (workbook.names.filter (· ≠ table.name)).filterMap
              (workbook.artifactOf? settings)
            tables := publication.tables - 1
            settlement :=
              { settled :=
                  publication.settlement.settled.filter fun entry => entry.table ≠ table.name
                left := publication.settlement.left }
            patches := publication.patches } := by
  obtain ⟨unique, faultless, patches, counted, rfl⟩ := publish_eq_ok_iff.mp published
  obtain ⟨before, after, tablesEq⟩ := List.append_of_mem tableMem
  rw [List.append_cons] at tablesEq
  have pair := sideBySide_without unique tablesEq untargeted
  have elsewhere : ∀ patch ∈ workbook.names, TableName.kind settings patch = .patch →
      workbook.names.find? (TableName.isPatchTarget settings.delimiters patch) ≠
        some table.name :=
    fun patch patchMem _ => find?_ne_of_isPatchTarget_eq_false (noTarget patch patchMem)
  obtain ⟨alike, sameCount⟩ := pair.alike_finalStore noPatch pair.alike_settledStore_of_nothing
    (fun patch patchMem _ => (find?_without (noTarget patch patchMem)).symm) (Or.inr elsewhere)
  have sameArtifacts : (workbook.names.filter (· ≠ table.name)).filterMap
        ((workbook.without table.name).artifactOf? settings) =
      (workbook.names.filter (· ≠ table.name)).filterMap (workbook.artifactOf? settings) := by
    apply List.filterMap_congr
    intro name nameMem
    exact (alike.artifact?_eq (by simpa using (List.mem_filter.mp nameMem).2)).symm
  have fewer : (workbook.without table.name).names.length = workbook.names.length - 1 := by
    simp [names, pair.otherTables, tablesEq]
  have uniqueWithout : (workbook.without table.name).names.Nodup := by
    rw [names_without]
    exact unique.filter _
  refine ⟨rfl, publish_eq_ok_iff.mpr ⟨uniqueWithout, keyFault?_without faultless untargeted,
    patches, sameCount.symm.trans counted, ?_⟩⟩
  rw [← sameArtifacts, ← names_without, ← fewer, pair.filter_entries_eq, filter_entries_without]

/-- A table with links to itself and to tables on both sides. -/
def lodger : Table :=
  { name := "X"
    rows :=
      [[("id", .str "x"), ("h:__H$ref=id", .str "h"), ("a:A$ref=id", .str "1"),
        ("x:X$ref=id", .str "x"), ("p.q", .str "2")]] }

/-- A workbook with the lodger among tables that link to each other and are patched. -/
def lodging : Workbook :=
  { tables :=
      [{ name := "A"
         rows := [[("id", .str "1"), ("h:__H$ref=id", .str "h"), ("a:A$ref=id", .str "1")]] },
       lodger,
       { name := "C$key=items"
         rows := [[("id", .str "c"), ("a:A$ref=id", .str "1"), ("h:__H$ref=id", .str "h")]] },
       { name := "!C", rows := [[("extra", .null), ("a:A$ref=id", .str "1")]] },
       { name := "__H", rows := [[("id", .str "h"), ("d.e", .str "3")]] }] }

theorem publish_without_lodging :
    ∃ publication others, lodging.publish {} = .ok publication ∧
      (lodging.without lodger.name).publish {} = .ok others ∧
        publication.artifacts =
            ["A", "X", "C$key=items", "!C", "__H"].filterMap (lodging.artifactOf? {}) ∧
          others.artifacts =
              ["A", "C$key=items", "!C", "__H"].filterMap (lodging.artifactOf? {}) ∧
            publication.patches = 1 ∧ others.patches = 1 ∧
              others.settlement.settled =
                [⟨"A", "h:__H$ref=id"⟩, ⟨"A", "a:A$ref=id"⟩,
                  ⟨"C$key=items", "h:__H$ref=id"⟩] := by
  obtain ⟨publication, published⟩ :=
    exists_publish_eq_ok (by decide +kernel : (lodging.publish {}).isOk = true)
  have patched : (lodging.publish {}).toOption.map Publication.patches = some 1 := by
    decide +kernel
  have settled : (lodging.publish {}).toOption.map (fun publication =>
      publication.settlement.settled.filter fun entry => entry.table ≠ lodger.name) =
        some [⟨"A", "h:__H$ref=id"⟩, ⟨"A", "a:A$ref=id"⟩, ⟨"C$key=items", "h:__H$ref=id"⟩] := by
    decide +kernel
  rw [published] at patched settled
  have lodgerMem : lodger ∈ lodging.tables := by simp [lodging]
  have untargeted : ∀ other ∈ lodging.tables, other.name ≠ lodger.name →
      other.Avoids {} lodger.name := by decide +kernel
  obtain ⟨artifacts, withoutPublished⟩ :=
    publish_without lodgerMem (by decide) untargeted (by decide +kernel) published
  have onePatch : publication.patches = 1 := Option.some_inj.mp patched
  exact ⟨publication, _, published, withoutPublished, artifacts, rfl, onePatch, onePatch,
    Option.some_inj.mp settled⟩

end Tabula.Workbook

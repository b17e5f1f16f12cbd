import Mathlib.Data.List.Nodup
import Tabula.Proofs.Run.Emission
import Tabula.Proofs.Run.Interleaving

/-!
# The order of the tables

Where a table stands decides which of its links can be resolved at once and which have to
wait. In a workbook whose rows are separable and whose links lead to tables without links
this makes no difference: the same tables can be resolved in any order, and the rows come
out with the same fields.
-/

namespace Tabula

namespace Store

/-- Wherever a table without links is stored, its rows have been unfolded and nothing else. -/
def TargetsUnfolded (d : Delimiters) (tables : List Table) (store : Store) : Prop :=
  ∀ table ∈ tables, (∀ row ∈ table.rows, Fields.links d row = []) →
    ∀ rows, store.rows? table.name = some rows →
      rows = table.rows.map fun row => .obj (Fields.unfolded d row)

end Store

namespace Workbook

variable {settings : Settings} {workbook shuffled : Workbook}

/-- A workbook in which the order of the tables cannot matter. -/
structure Orderless (settings : Settings) (workbook : Workbook) : Prop where
  /-- There is no patch table. -/
  noPatch : ∀ table ∈ workbook.tables, TableName.kind settings table.name ≠ .patch
  separable : ∀ table ∈ workbook.tables, ∀ row ∈ table.rows,
    Fields.Separable settings.delimiters row
  /-- A table that is the target of a link has no links itself. -/
  flatTargets : ∀ table ∈ workbook.tables, ∀ row ∈ table.rows,
    ∀ link ∈ Fields.links settings.delimiters row, ∀ target ∈ workbook.tables,
      target.name = link.target → ∀ other ∈ target.rows,
        Fields.links settings.delimiters other = []

/-- The rows of a table, unfolded. -/
def unfoldedRows (d : Delimiters) (workbook : Workbook) (name : String) : List Value :=
  match workbook.get? name with
  | some table => table.rows.map fun row => .obj (Fields.unfolded d row)
  | none => []

theorem get?_of_mem {table : Table} (unique : workbook.names.Nodup)
    (member : table ∈ workbook.tables) : workbook.get? table.name = some table := by
  cases found : workbook.get? table.name with
  | none =>
      have absent := List.find?_eq_none.mp found table member
      simp at absent
  | some other =>
      have otherMem := List.mem_of_find?_eq_some found
      have sameName : other.name = table.name := by
        simpa using List.find?_some found
      rw [List.inj_on_of_nodup_map unique otherMem member sameName]

section Targets

/-- Storing any table of the workbook keeps the tables without links unfolded. -/
theorem targetsUnfolded_addTable (unique : workbook.names.Nodup) {store : Store} {table : Table}
    (tableMem : table ∈ workbook.tables)
    (unfolded : store.TargetsUnfolded settings.delimiters workbook.tables) :
    (store.addTable settings table).TargetsUnfolded settings.delimiters workbook.tables := by
  intro target targetMem noLinks rows stored
  rw [Store.rows?_addTable] at stored
  split at stored
  · rename_i sameName
    obtain rfl := List.inj_on_of_nodup_map unique tableMem targetMem sameName
    cases stored
    apply List.map_congr_left
    intro row rowMem
    rw [Store.applyColumns_of_links_eq_nil (noLinks row rowMem)]
  · exact unfolded target targetMem noLinks rows stored

/-- Settling a column of the backlog does not touch the tables without links. -/
theorem targetsUnfolded_settleColumn (unique : workbook.names.Nodup) {store : Store}
    {entry : Pending} (waits : entry ∈ (workbook.firstPass settings).backlog.entries)
    (unfolded : store.TargetsUnfolded settings.delimiters workbook.tables) :
    (store.settleColumn settings entry).TargetsUnfolded settings.delimiters workbook.tables := by
  intro target targetMem noLinks rows stored
  obtain ⟨table, tableMem, tableEq, row, rowMem, keyMem, link, read⟩ :=
    exists_of_mem_entries_firstPass waits
  have differ : entry.table ≠ target.name := by
    intro sameName
    obtain rfl := List.inj_on_of_nodup_map unique tableMem targetMem (tableEq.symm.trans sameName)
    have isLink := Fields.mem_links.mpr ⟨entry.key, keyMem, read⟩
    rw [noLinks row rowMem] at isLink
    cases isLink
  rw [Store.rows?_settleColumn, if_neg differ] at stored
  exact unfolded target targetMem noLinks rows stored

end Targets

/-- In a run of an orderless workbook the history of a row lets paths and links stay apart. -/
theorem Orderless.interleaved (orderless : workbook.Orderless settings)
    (unique : workbook.names.Nodup) (faultless : workbook.keyFault? settings = none)
    {flat : String → List Value}
    (flatEq : ∀ table ∈ workbook.tables,
      flat table.name = table.rows.map fun row => .obj (Fields.unfolded settings.delimiters row))
    {table : Table} {row : Fields} (tableMem : table ∈ workbook.tables)
    (rowMem : row ∈ table.rows) :
    Fields.Interleaved settings flat row (workbook.history settings table.name row)
        (workbook.resolvedRow settings table.name row) ∧
      Entries.Distinct (workbook.resolvedRow settings table.name row) := by
  have separable := orderless.separable table tableMem row rowMem
  have start : Store.TargetsUnfolded settings.delimiters workbook.tables
      { rowsField := settings.rowsField } := by
    intro target _ _ rows stored
    cases stored
  have reached := reached_resolvedRow faultless start
    (fun store other otherMem => targetsUnfolded_addTable unique otherMem)
    (fun store entry waits => targetsUnfolded_settleColumn unique waits) table.name row
  constructor
  · apply reached.interleaved separable
    intro store unfolded link linkMem targetRows stored
    obtain ⟨key, keyMem, read⟩ := Fields.mem_links.mp linkMem
    have keyFaultless := keyFault?_eq_none_iff.mp faultless table tableMem row rowMem key keyMem
    have known := Column.mem_of_fault?_eq_none keyFaultless read
    obtain ⟨target, targetMem, targetName⟩ := List.mem_map.mp known
    have noLinks :=
      orderless.flatTargets table tableMem row rowMem link linkMem target targetMem targetName
    rw [← targetName] at stored ⊢
    rw [unfolded target targetMem noLinks targetRows stored, flatEq target targetMem]
  · exact reached.distinct separable.distinct

section Perm

theorem names_perm (perm : shuffled.tables.Perm workbook.tables) :
    shuffled.names.Perm workbook.names :=
  perm.map Table.name

theorem Orderless.of_perm (perm : shuffled.tables.Perm workbook.tables)
    (orderless : workbook.Orderless settings) : shuffled.Orderless settings := by
  constructor
  · intro table tableMem
    exact orderless.noPatch table (perm.mem_iff.mp tableMem)
  · intro table tableMem
    exact orderless.separable table (perm.mem_iff.mp tableMem)
  · intro table tableMem row rowMem link linkMem target targetMem
    exact orderless.flatTargets table (perm.mem_iff.mp tableMem) row rowMem link linkMem target
      (perm.mem_iff.mp targetMem)

/-- Whether a workbook has faulty keys does not depend on the order of its tables. -/
theorem keyFault?_eq_none_of_perm (perm : shuffled.tables.Perm workbook.tables)
    (faultless : workbook.keyFault? settings = none) : shuffled.keyFault? settings = none := by
  rw [keyFault?_eq_none_iff] at faultless ⊢
  intro table tableMem row rowMem key keyMem
  obtain ⟨column, read, target⟩ := Column.fault?_eq_none_iff.mp
    (faultless table (perm.mem_iff.mp tableMem) row rowMem key keyMem)
  have shuffledTarget : ∀ link, column = .link link → link.target ∈ shuffled.names :=
    fun link isLink => (names_perm perm).mem_iff.mpr (target link isLink)
  exact Column.fault?_eq_none_iff.mpr ⟨column, read, shuffledTarget⟩

end Perm

/-- An orderless workbook can be resolved in any order of its tables or in none, and in any
order every row comes out with the same fields. -/
theorem publish_perm (orderless : workbook.Orderless settings)
    (perm : shuffled.tables.Perm workbook.tables) :
    ((∃ publication, shuffled.publish settings = .ok publication) ↔
        ∃ publication, workbook.publish settings = .ok publication) ∧
      ∀ publication other, workbook.publish settings = .ok publication →
        shuffled.publish settings = .ok other →
          ∃ rows otherRows : Table → Fields → Fields,
            publication.artifacts =
                workbook.tables.filterMap (fun table =>
                  table.artifact? settings (table.rows.map (rows table))) ∧
              other.artifacts =
                  shuffled.tables.filterMap (fun table =>
                    table.artifact? settings (table.rows.map (otherRows table))) ∧
                ∀ table ∈ workbook.tables, ∀ row ∈ table.rows,
                  (rows table row).Perm (otherRows table row) := by
  have shuffledOrderless := orderless.of_perm perm
  constructor
  · rw [exists_publish_eq_ok_iff orderless.noPatch,
      exists_publish_eq_ok_iff shuffledOrderless.noPatch, (names_perm perm).nodup_iff]
    constructor
    · rintro ⟨unique, faultless⟩
      exact ⟨unique, keyFault?_eq_none_of_perm perm.symm faultless⟩
    · rintro ⟨unique, faultless⟩
      exact ⟨unique, keyFault?_eq_none_of_perm perm faultless⟩
  · intro publication other published otherPublished
    obtain ⟨unique, faultless, _⟩ := publish_eq_ok published
    obtain ⟨shuffledUnique, shuffledFaultless, _⟩ := publish_eq_ok otherPublished
    refine ⟨fun table => workbook.resolvedRow settings table.name,
      fun table => shuffled.resolvedRow settings table.name,
      artifacts_of_no_patch orderless.noPatch published,
      artifacts_of_no_patch shuffledOrderless.noPatch otherPublished, ?_⟩
    intro table tableMem row rowMem
    have flatEq : ∀ table ∈ workbook.tables,
        workbook.unfoldedRows settings.delimiters table.name =
          table.rows.map fun row => .obj (Fields.unfolded settings.delimiters row) := by
      intro table tableMem
      rw [unfoldedRows, get?_of_mem unique tableMem]
    have shuffledFlatEq : ∀ table ∈ shuffled.tables,
        workbook.unfoldedRows settings.delimiters table.name =
          table.rows.map fun row => .obj (Fields.unfolded settings.delimiters row) :=
      fun table tableMem => flatEq table (perm.mem_iff.mp tableMem)
    obtain ⟨first, distinct⟩ :=
      orderless.interleaved unique faultless flatEq tableMem rowMem
    obtain ⟨second, otherDistinct⟩ :=
      shuffledOrderless.interleaved shuffledUnique shuffledFaultless shuffledFlatEq
        (perm.mem_iff.mpr tableMem) rowMem
    apply Entries.perm_of_get?_eq distinct otherDistinct
    apply first.get?_eq second
    · intro key keyMem
      exact mem_history unique tableMem rowMem keyMem
    · intro key keyMem
      exact mem_history shuffledUnique (perm.mem_iff.mpr tableMem) rowMem keyMem
    · rw [filter_isPath_history, filter_isPath_history]

/-- A workbook with links, paths and a plain key under the field of a link. -/
def linkedBothWays : Workbook :=
  { tables :=
      [{ name := "A", rows := [[("id", .str "x"), ("p.q", .str "1")]] },
       { name := "B"
         rows :=
           [[("u.v", .str "2"), ("c:C$ref=id", .str "y,z"), ("a:A$ref=id$ref_suffix=x", .null),
             ("u.w", .str "3"), ("c", .str "old")]] },
       { name := "C", rows := [[("id", .str "y"), ("r.s", .str "4")], [("id", .str "z")]] }] }

/-- The same tables, back to front. -/
def linkedBackToFront : Workbook :=
  { tables := linkedBothWays.tables.reverse }

set_option maxRecDepth 4000 in
theorem publish_perm_linkedBackToFront :
    ∃ publication other, linkedBothWays.publish {} = .ok publication ∧
      linkedBackToFront.publish {} = .ok other ∧
        ∃ rows otherRows : Table → Fields → Fields,
          publication.artifacts =
              linkedBothWays.tables.filterMap (fun table =>
                table.artifact? {} (table.rows.map (rows table))) ∧
            other.artifacts =
                linkedBackToFront.tables.filterMap (fun table =>
                  table.artifact? {} (table.rows.map (otherRows table))) ∧
              ∀ table ∈ linkedBothWays.tables, ∀ row ∈ table.rows,
                (rows table row).Perm (otherRows table row) := by
  have orderless : linkedBothWays.Orderless {} := ⟨by decide, by decide, by decide⟩
  have perm : linkedBackToFront.tables.Perm linkedBothWays.tables := List.reverse_perm _
  obtain ⟨succeeds, sameFields⟩ := publish_perm orderless perm
  obtain ⟨publication, published⟩ :
      ∃ publication, linkedBothWays.publish {} = .ok publication := ⟨_, rfl⟩
  obtain ⟨other, otherPublished⟩ := succeeds.mpr ⟨publication, published⟩
  exact ⟨publication, other, published, otherPublished,
    sameFields publication other published otherPublished⟩

end Workbook

end Tabula

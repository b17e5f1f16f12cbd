import Mathlib.Data.List.Basic
import Tabula.Proofs.Run.SideBySide

/-!
# Hidden fields do not interfere

Rows are embedded in other tables without their hidden fields. So as long as rows of a table
are looked up by visible fields alone, what its hidden fields hold, and whether they are
there at all, makes no difference to any other table, to any fault, or to the counts of a
run.
-/

namespace Tabula

namespace Link

variable {settings : Settings} {link : Link}

/-- A match option without brackets names the match field for every row. -/
theorem field_matching {field : String}
    (named : Options.last? link.options matchOption = some field) (free : '[' ∉ field.toList)
    (record : Fields) : (link.matching record).field = field := by
  rw [matching]
  dsimp only
  rw [Options.last?_map, named, Option.map_some, Placeholder.fill_of_not_mem record free]
  rfl

theorem visible_visible (row : Fields) :
    visible settings (visible settings row) = visible settings row := by
  rw [visible, visible, List.filter_filter]
  simp

/-- Whether a row is accepted by a visible field does not depend on its hidden fields. -/
theorem accepts_visible {field : String} (shown : settings.isHidden field = false)
    (wanted : List String) (row : Fields) :
    accepts field wanted (visible settings row) = accepts field wanted row := by
  have kept : (!settings.isHidden field) = true := by rw [shown]; rfl
  have sameCell : Entries.get? (visible settings row) field = Entries.get? row field :=
    Entries.get?_filter_key (fun name => !settings.isHidden name) row kept
  rw [accepts, accepts, sameCell]

/-- A link that matches on a visible field links the same of rows without their hidden
fields. -/
theorem linkedRows_visible {field : String}
    (named : Options.last? link.options matchOption = some field) (free : '[' ∉ field.toList)
    (shown : settings.isHidden field = false) (record : Fields) (cell : Value)
    (rows : List Value) :
    link.linkedRows settings record cell (rows.map (Value.mapFields (visible settings))) =
      link.linkedRows settings record cell rows := by
  have fieldsEq : (fun row => (Value.mapFields (visible settings) row).fields?) =
      fun row => row.fields?.map (visible settings) := by
    funext row
    cases row <;> rfl
  have visibleRows : (rows.map (Value.mapFields (visible settings))).filterMap Value.fields? =
      (rows.filterMap Value.fields?).map (visible settings) := by
    rw [List.filterMap_map, List.map_filterMap]
    exact congrArg (List.filterMap · rows) fieldsEq
  have sameAccepted : accepts field (link.tokens settings record cell) ∘ visible settings =
      accepts field (link.tokens settings record cell) :=
    funext (accepts_visible shown _)
  rw [linkedRows, linkedRows, field_matching named free, visibleRows, List.filter_map,
    sameAccepted, List.map_map]
  apply List.map_congr_left
  intro row _
  rw [Function.comp_apply, visible_visible]

end Link

/-- The view that shows the visible fields of rows. -/
def Store.visibly (settings : Settings) : Option (List Value) → Option (List Value) :=
  Option.map (List.map (Value.mapFields (Link.visible settings)))

/-- Every link of the table that leads to the table `name` matches on a visible field, named
without brackets. -/
def Table.MatchesVisibly (settings : Settings) (name : String) (table : Table) : Prop :=
  ∀ row ∈ table.rows, ∀ link ∈ Fields.links settings.delimiters row, link.target = name →
    ∃ field, Options.last? link.options Link.matchOption = some field ∧
      settings.isHidden field = false ∧ '[' ∉ field.toList

instance (settings : Settings) (name : String) (table : Table) :
    Decidable (table.MatchesVisibly settings name) :=
  decidable_of_iff
    (∀ row ∈ table.rows, ∀ link ∈ Fields.links settings.delimiters row, link.target = name →
      (Options.last? link.options Link.matchOption).any
        fun field => settings.isHidden field = false ∧ '[' ∉ field.toList)
    (by simp only [Table.MatchesVisibly, Option.any_eq_true, decide_eq_true_eq])

theorem Table.MatchesVisibly.seesThrough {settings : Settings} {name : String} {table : Table}
    (visibly : table.MatchesVisibly settings name) :
    table.SeesThrough settings name (Store.visibly settings) := by
  intro row rowMem key keyMem link read target rows other same record cell
  obtain ⟨field, named, shown, free⟩ :=
    visibly row rowMem link (Fields.mem_links.mpr ⟨key, keyMem, read⟩) target
  have linkVisible : (link.linkedRows settings record cell) =
      link.linkedRows settings record cell ∘
        List.map (Value.mapFields (Link.visible settings)) :=
    (funext (Link.linkedRows_visible named free shown record cell)).symm
  rw [linkVisible, ← Option.map_map, ← Option.map_map]
  exact congrArg (Option.map (link.linkedRows settings record cell)) same

/-- All keys of the table are plain. -/
def Table.Plain (d : Delimiters) (table : Table) : Prop :=
  ∀ row ∈ table.rows, ∀ key ∈ Entries.keys row, Column.ofKey d key = .ok .plain

instance (d : Delimiters) (table : Table) : Decidable (table.Plain d) :=
  decidable_of_iff
    (∀ row ∈ table.rows, ∀ key ∈ Entries.keys row, Column.of? d key = some .plain)
    (by simp only [Table.Plain, Column.of?_eq_some_iff])

namespace Table.Plain

variable {settings : Settings} {table : Table}

theorem fault?_eq_none (plain : table.Plain settings.delimiters) (known : List String) :
    table.fault? settings.delimiters known = none := by
  simp only [Table.fault?, Fields.fault?, List.findSome?_eq_none_iff]
  intro row rowMem key keyMem
  rw [Column.fault?, plain row rowMem key keyMem]

/-- The rows of a plain table are stored as they are. -/
theorem addTable_eq (plain : table.Plain settings.delimiters) (store : Store) :
    store.addTable settings table = store.putRows table.name (table.rows.map .obj) := by
  rw [Store.addTable]
  apply congrArg (store.putRows table.name)
  apply List.map_congr_left
  intro row rowMem
  have unchanged : store.applyColumns settings row = row := by
    let same : Fields → Prop := fun record => record = row
    apply List.foldlRecOn (motive := same) (Entries.keys row) (store.applyColumn settings) rfl
    intro record isRow key keyMem
    have nothing := Column.createdBy?_eq_none_of_plain (plain row rowMem key keyMem)
    exact (Store.applyColumn_of_createdBy?_eq_none nothing).trans isRow
  rw [unchanged]

/-- No column of a plain table waits. -/
theorem waitingFrom_eq_nil (plain : table.Plain settings.delimiters) (store : Store) :
    store.waitingFrom settings [table] = [] := by
  have noneWaits : store.postponedFrom settings [table] = [] := by
    apply List.eq_nil_iff_forall_not_mem.mpr
    intro entry waits
    obtain ⟨other, otherMem, _, row, rowMem, keyMem, link, read⟩ :=
      Store.exists_of_mem_postponedFrom waits
    obtain rfl := List.mem_singleton.mp otherMem
    cases read.symm.trans (plain row rowMem entry.key keyMem)
  rw [Store.waitingFrom, noneWaits]
  rfl

end Table.Plain

namespace Workbook

variable {settings : Settings} {workbook other : Workbook} {before after : List Table}
  {table changed : Table}

/-- Two workbooks that differ in one table alone, and in this table, whose keys are all
plain, in hidden fields alone. Its rows are the same ones otherwise, in the same order. -/
structure DifferInHidden (settings : Settings) (workbook other : Workbook)
    (before after : List Table) (table changed : Table) : Prop where
  tables : workbook.tables = before ++ [table] ++ after
  otherTables : other.tables = before ++ [changed] ++ after
  sameName : changed.name = table.name
  plain : table.Plain settings.delimiters
  changedPlain : changed.Plain settings.delimiters
  sameVisible : table.rows.map (Link.visible settings) =
    changed.rows.map (Link.visible settings)

namespace DifferInHidden

theorem names_eq (differ : DifferInHidden settings workbook other before after table changed) :
    workbook.names = other.names := by
  simp [names, differ.tables, differ.otherTables, differ.sameName]

/-- Both workbooks have the same first faulty key, if any. -/
theorem keyFault?_eq
    (differ : DifferInHidden settings workbook other before after table changed) :
    workbook.keyFault? settings = other.keyFault? settings := by
  rw [keyFault?, keyFault?, differ.names_eq, differ.tables, differ.otherTables]
  simp only [List.findSome?_append, List.findSome?_cons, List.findSome?_nil,
    differ.plain.fault?_eq_none, differ.changedPlain.fault?_eq_none]

/-- The view of the visible fields shows no difference. -/
theorem sideBySide (differ : DifferInHidden settings workbook other before after table changed)
    (apart : ∀ linking ∈ before ++ after, linking.name ≠ table.name)
    (visibly : ∀ linking ∈ before ++ after, linking.MatchesVisibly settings table.name) :
    SideBySide settings table.name (Store.visibly settings) workbook other before [table]
      [changed] after := by
  refine ⟨differ.tables, differ.otherTables, by simp, by simpa using differ.sameName, apart,
    fun linking linkingMem => (visibly linking linkingMem).seesThrough, fun store => ?_⟩
  have shown : ∀ rows : List Fields,
      (rows.map Value.obj).map (Value.mapFields (Link.visible settings)) =
        (rows.map (Link.visible settings)).map Value.obj := by
    intro rows
    rw [List.map_map, List.map_map]
    rfl
  rw [List.foldl_cons, List.foldl_nil, List.foldl_cons, List.foldl_nil,
    differ.plain.addTable_eq, differ.changedPlain.addTable_eq, Store.rows?_putRows,
    Store.rows?_putRows, if_pos rfl, if_pos differ.sameName, Store.visibly, Option.map_some,
    Option.map_some, shown, shown, differ.sameVisible]

/-- Settled, both stores hold the same but for the table. -/
theorem alike_settledStore
    (differ : DifferInHidden settings workbook other before after table changed)
    (unique : workbook.names.Nodup)
    (visibly : ∀ linking ∈ before ++ after, linking.MatchesVisibly settings table.name) :
    Store.Alike table.name (Store.visibly settings) (workbook.settledStore settings)
      (other.settledStore settings) := by
  have pair := differ.sideBySide (apart_of_tables_eq unique differ.tables) visibly
  apply pair.alike_settledStore
  intro store otherStore alike
  rw [differ.plain.waitingFrom_eq_nil, differ.changedPlain.waitingFrom_eq_nil]
  exact alike

/-- The same columns wait. -/
theorem entries_eq
    (differ : DifferInHidden settings workbook other before after table changed)
    (unique : workbook.names.Nodup)
    (visibly : ∀ linking ∈ before ++ after, linking.MatchesVisibly settings table.name) :
    (workbook.firstPass settings).backlog.entries =
      (other.firstPass settings).backlog.entries := by
  have pair := differ.sideBySide (apart_of_tables_eq unique differ.tables) visibly
  obtain ⟨front, back, entries, otherEntries, _⟩ := pair.exists_entries_eq
  rw [entries, otherEntries, differ.plain.waitingFrom_eq_nil,
    differ.changedPlain.waitingFrom_eq_nil]

/-- Patched, both stores hold the same but for the table, and as much has been patched. -/
theorem alike_finalStore
    (differ : DifferInHidden settings workbook other before after table changed)
    (noPatch : TableName.kind settings table.name ≠ .patch) (unique : workbook.names.Nodup)
    (visibly : ∀ linking ∈ before ++ after, linking.MatchesVisibly settings table.name) :
    Store.Alike table.name Store.nothing (workbook.finalStore settings)
        (other.finalStore settings) ∧
      ((workbook.settledStore settings).applyPatches settings workbook.names).2 =
        ((other.settledStore settings).applyPatches settings other.names).2 := by
  have pair := differ.sideBySide (apart_of_tables_eq unique differ.tables) visibly
  have otherUnique : other.names.Nodup := differ.names_eq ▸ unique
  -- The table may be patched itself, so it matters that both stores have a document for it.
  have bothStored : ((workbook.settledStore settings).document? table.name).isSome =
      ((other.settledStore settings).document? table.name).isSome := by
    rw [isSome_document?_settledStore unique (by simp [differ.tables]), ← differ.sameName,
      isSome_document?_settledStore otherUnique (by simp [differ.otherTables])]
  exact pair.alike_finalStore noPatch (differ.alike_settledStore unique visibly).forget
    (fun patch _ _ => by rw [differ.names_eq]) (Or.inl bothStored)

end DifferInHidden

/-- A run does not depend on the hidden fields of a plain table, as long as all links to this
table match on visible fields: with other hidden fields it fails with the same fault, or it
yields the same counts, settles the same columns, and emits the same for every other table. -/
theorem publish_of_differInHidden
    (differ : DifferInHidden settings workbook other before after table changed)
    (noPatch : TableName.kind settings table.name ≠ .patch)
    (visibly : ∀ linking ∈ before ++ after, linking.MatchesVisibly settings table.name) :
    (∃ fault, workbook.publish settings = .error fault ∧
        other.publish settings = .error fault) ∨
      ∃ publication otherPublication,
        workbook.publish settings = .ok publication ∧
          other.publish settings = .ok otherPublication ∧
            otherPublication.tables = publication.tables ∧
              otherPublication.settlement = publication.settlement ∧
                otherPublication.patches = publication.patches ∧
                  publication.artifacts =
                      workbook.names.filterMap (workbook.artifactOf? settings) ∧
                    otherPublication.artifacts =
                        workbook.names.filterMap (other.artifactOf? settings) ∧
                      ∀ name, name ≠ table.name →
                        workbook.artifactOf? settings name = other.artifactOf? settings name := by
  cases repeated : firstRepeated? [] workbook.names with
  | some name =>
      left
      rw [publish_eq, publish_eq, ← differ.names_eq, repeated]
      exact ⟨_, rfl, rfl⟩
  | none =>
      have unique := (firstRepeated?_eq_none_iff.mp repeated).1
      have otherUnique : other.names.Nodup := differ.names_eq ▸ unique
      cases faulty : workbook.keyFault? settings with
      | some fault =>
          left
          exact ⟨fault, publish_of_keyFault unique faulty,
            publish_of_keyFault otherUnique (differ.keyFault?_eq ▸ faulty)⟩
      | none =>
          obtain ⟨alike, sameCount⟩ := differ.alike_finalStore noPatch unique visibly
          rw [publish_of_faultless unique faulty,
            publish_of_faultless otherUnique (differ.keyFault?_eq ▸ faulty), ← sameCount]
          cases ((workbook.settledStore settings).applyPatches settings workbook.names).2 with
          | error fault => exact Or.inl ⟨fault, rfl, rfl⟩
          | ok patches =>
              have sameEntries := differ.entries_eq unique visibly
              exact Or.inr ⟨_, _, rfl, rfl, by rw [differ.names_eq], by rw [sameEntries], rfl,
                rfl, by rw [differ.names_eq], fun name => alike.artifact?_eq⟩

/-- Settings under which a name with an option block can be the target of a link. -/
def hashed : Settings :=
  { delimiters := { tableOption := '#' } }

/-- A table with hidden fields. -/
def whispers : Table :=
  { name := "T#key=rows"
    rows := [[("__note", .str "1"), ("id", .str "1"), ("x", .str "5")], [("id", .str "2")]] }

/-- The same table with other hidden fields at other places. -/
def murmurs : Table :=
  { name := "T#key=rows"
    rows :=
      [[("id", .str "1"), ("x", .str "5")],
        [("__note", .arr [.null]), ("__id", .str "1"), ("id", .str "2")]] }

/-- A table with a link to a later table that links to the table with hidden fields, and with
a link to the latter. -/
def listeners : Table :=
  { name := "A"
    rows :=
      [[("id", .str "a"), ("b:B$ref=id", .str "b"), ("t:T#key=rows$ref=__id$ref=id", .str "1")]] }

/-- Tables that look up rows of the table with hidden fields, one of them a patch for it. -/
def gossips : List Table :=
  [{ name := "B", rows := [[("id", .str "b"), ("t:T#key=rows$ref=id", .str "2,1")]] },
   { name := "!T", rows := [[("__note", .null), ("t:T#key=rows$ref=id", .str "2")]] }]

/-- A table among those that look up its rows. -/
def overheard (table : Table) : Workbook :=
  { tables := [listeners] ++ [table] ++ gossips }

theorem publish_of_differInHidden_overheard :
    ∃ publication other, (overheard whispers).publish hashed = .ok publication ∧
      (overheard murmurs).publish hashed = .ok other ∧
        other.settlement = publication.settlement ∧ other.patches = publication.patches ∧
          ∀ name, name ≠ whispers.name →
            (overheard whispers).artifactOf? hashed name =
              (overheard murmurs).artifactOf? hashed name := by
  have differ : DifferInHidden hashed (overheard whispers) (overheard murmurs) [listeners]
      gossips whispers murmurs :=
    ⟨rfl, rfl, rfl, by decide +kernel, by decide +kernel, by decide +kernel⟩
  have visibly : ∀ linking ∈ [listeners] ++ gossips,
      linking.MatchesVisibly hashed whispers.name := by decide +kernel
  obtain ⟨_, succeeds⟩ :=
    exists_publish_eq_ok (by decide +kernel : ((overheard whispers).publish hashed).isOk = true)
  rcases publish_of_differInHidden differ (by decide +kernel) visibly with
    ⟨fault, failed, _⟩ | ⟨publication, other, published, otherPublished, _, settlement, patches,
      _, _, same⟩
  · rw [failed] at succeeds
    cases succeeds
  · exact ⟨publication, other, published, otherPublished, settlement, patches, same⟩

end Workbook

end Tabula

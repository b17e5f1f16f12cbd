import Mathlib.Data.List.Nodup
import Tabula.Proofs.Run.PatchRows

/-!
# Renaming the rows of a document

A table name with a `key` option has the rows of the emitted document under a field of its own
choice. As long as no other field of the document has this name, the document is emitted with
every field in its place and every value under its name. When a patch has put a field there, the
two fields become one and one of the two values is lost.
-/

namespace Tabula

namespace Entries

variable {κ α : Type} {entries before after : Entries κ α} {key : κ}

theorem mem_keys_middle {entry : κ × α} :
    key ∈ keys (before ++ entry :: after) ↔ key = entry.1 ∨ key ∈ keys (before ++ after) := by
  simp only [keys, List.map_append, List.map_cons, List.mem_append, List.mem_cons]
  exact or_left_comm

theorem distinct_middle {entry : κ × α} :
    Distinct (before ++ entry :: after) ↔
      entry.1 ∉ keys (before ++ after) ∧ Distinct (before ++ after) := by
  have moved : (before ++ entry :: after).Perm (entry :: (before ++ after)) := List.perm_middle
  exact (moved.map Prod.fst).nodup_iff.trans List.nodup_cons

variable [DecidableEq κ]

theorem collect_concat (entries : List (κ × α)) (entry : κ × α) :
    collect (entries ++ [entry]) = put (collect entries) entry.1 entry.2 :=
  List.foldl_concat ..

/-- New keys follow in their order. -/
theorem collect_append_of_distinct (distinct : Distinct (collect before ++ after)) :
    collect (before ++ after) = collect before ++ after := by
  induction after generalizing before with
  | nil => rw [List.append_nil, List.append_nil]
  | cons entry rest ih =>
      have fresh : entry.1 ∉ keys (collect before) := by
        rw [Distinct, keys, List.map_append, List.nodup_append] at distinct
        exact fun present => distinct.2.2 entry.1 present entry.1 List.mem_cons_self rfl
      have next : collect (before ++ [entry]) = collect before ++ [entry] := by
        rw [collect_concat, put_eq_append_of_not_mem entry.2 fresh]
      rw [List.append_cons, ih, next, ← List.append_cons]
      rw [next, ← List.append_cons]
      exact distinct

theorem collect_of_distinct (distinct : Distinct entries) : collect entries = entries := by
  have allNew : Distinct (collect [] ++ entries) := distinct
  exact collect_append_of_distinct allNew

theorem put_append_cons {old content : α} (fresh : key ∉ keys before) :
    put (before ++ (key, old) :: after) key content = before ++ (key, content) :: after := by
  induction before with
  | nil => exact if_pos rfl
  | cons entry rest ih =>
      obtain ⟨other, kept⟩ := entry
      rw [keys, List.map_cons, List.mem_cons, not_or] at fresh
      rw [List.cons_append, put, if_neg (Ne.symm fresh.1), ih fresh.2, List.cons_append]

/-- A key that occurs twice keeps its first position and its last content. -/
theorem collect_of_repeated {middle : Entries κ α} {first second : α}
    (distinct : Distinct (before ++ (key, first) :: (middle ++ after))) :
    collect (before ++ (key, first) :: (middle ++ (key, second) :: after)) =
      before ++ (key, second) :: (middle ++ after) := by
  have sameKeys : keys (before ++ (key, second) :: (middle ++ after)) =
      keys (before ++ (key, first) :: (middle ++ after)) := by
    simp [keys]
  have upToSecond : Distinct (before ++ (key, first) :: middle) := by
    apply List.Nodup.sublist _ distinct
    simp [keys]
  have fresh : key ∉ keys before := by
    intro present
    apply (distinct_middle.mp distinct).1
    rw [keys, List.map_append]
    exact List.mem_append_left _ present
  have merged : collect (before ++ (key, first) :: middle ++ [(key, second)]) =
      before ++ (key, second) :: middle := by
    rw [collect_concat, collect_of_distinct upToSecond, put_append_cons fresh]
  calc
    collect (before ++ (key, first) :: (middle ++ (key, second) :: after))
    _ = collect (before ++ (key, first) :: middle ++ [(key, second)] ++ after) := by simp
    _ = collect (before ++ (key, first) :: middle ++ [(key, second)]) ++ after := by
      apply collect_append_of_distinct
      rw [merged, Distinct, List.append_assoc, List.cons_append, sameKeys]
      exact distinct
    _ = before ++ (key, second) :: (middle ++ after) := by
      rw [merged, List.append_assoc, List.cons_append]

end Entries

namespace Fields

/-- A field under its name in a document in which the field `old` is called `new`. -/
def renameField (old new : String) (field : String × Value) : String × Value :=
  (if field.1 = old then new else field.1, field.2)

/-- A document emitted with the field `old` called `new`, and with nothing lost. -/
structure Renamed (old new : String) (document emitted : Fields) : Prop where
  inPlace : emitted = document.map (renameField old new)
  size : emitted.length = document.length
  rows : ∀ value, Entries.get? document old = some value → Entries.get? emitted new = some value
  kept : ∀ name value, name ≠ old → Entries.get? document name = some value →
    Entries.get? emitted name = some value

/-- A document emitted with the fields `old` and `new` in one: the field that comes first gives
the position and the other one the value. -/
structure Merged (old new : String) (document emitted : Fields) : Prop where
  inOne : ∃ before first middle second after,
    document = before ++ first :: (middle ++ second :: after) ∧
      ((first.1 = old ∧ second.1 = new) ∨ (first.1 = new ∧ second.1 = old)) ∧
        emitted = before ++ (new, second.2) :: (middle ++ after)
  size : emitted.length + 1 = document.length

variable {old new : String} {document : Fields}

theorem renameField_of_ne {field : String × Value} (differ : field.1 ≠ old) :
    renameField old new field = field := by
  rw [renameField, if_neg differ]

theorem map_renameField_of_not_mem (absent : old ∉ Entries.keys document) :
    document.map (renameField old new) = document := by
  conv => rhs; rw [← List.map_id document]
  apply List.map_congr_left
  intro field fieldMem
  exact renameField_of_ne fun same => absent (same ▸ List.mem_map_of_mem fieldMem)

theorem keys_map_renameField (old new : String) (document : Fields) :
    Entries.keys (document.map (renameField old new)) =
      (Entries.keys document).map fun name => if name = old then new else name := by
  rw [Entries.keys, Entries.keys, List.map_map, List.map_map]
  rfl

/-- While no other field has the new name, no name is repeated. -/
theorem distinct_map_renameField (distinct : Entries.Distinct document)
    (free : new ∉ Entries.keys (Entries.erase document old)) :
    Entries.Distinct (document.map (renameField old new)) := by
  rw [Entries.mem_keys_erase, not_and'] at free
  rw [Entries.Distinct, keys_map_renameField]
  apply List.Nodup.map_on _ distinct
  intro name nameMem other otherMem same
  by_cases isOld : name = old
  · rw [if_pos isOld] at same
    by_cases otherOld : other = old
    · rw [isOld, otherOld]
    · rw [if_neg otherOld] at same
      exact absurd (same ▸ otherMem) fun present => free present (same ▸ otherOld)
  · rw [if_neg isOld] at same
    by_cases otherOld : other = old
    · rw [if_pos otherOld] at same
      exact absurd (same ▸ nameMem) fun present => free present (same ▸ isOld)
    · rw [if_neg otherOld] at same
      exact same

theorem renamed_rename (distinct : Entries.Distinct document)
    (free : new ∉ Entries.keys (Entries.erase document old)) :
    Renamed old new document (rename document old new) := by
  have distinctAfter := distinct_map_renameField distinct free
  have renameEq : rename document old new = document.map (renameField old new) :=
    Entries.collect_of_distinct distinctAfter
  rw [renameEq]
  refine ⟨rfl, List.length_map _, fun value found => ?_, fun name value differ found => ?_⟩
  · apply (Entries.mem_iff_get?_eq_some distinctAfter).mp
    have fieldMem := List.mem_map_of_mem (f := renameField old new)
      (Entries.mem_of_get?_eq_some found)
    rw [renameField, if_pos rfl] at fieldMem
    exact fieldMem
  · apply (Entries.mem_iff_get?_eq_some distinctAfter).mp
    have fieldMem := List.mem_map_of_mem (f := renameField old new)
      (Entries.mem_of_get?_eq_some found)
    rw [renameField_of_ne differ] at fieldMem
    exact fieldMem

/-- Two fields of a document divide it into the fields before, between and behind them. -/
theorem exists_eq_append (differ : old ≠ new)
    (hasOld : old ∈ Entries.keys document) (hasNew : new ∈ Entries.keys document) :
    ∃ before first middle second after,
      document = before ++ first :: (middle ++ second :: after) ∧
        ((first.1 = old ∧ second.1 = new) ∨ (first.1 = new ∧ second.1 = old)) := by
  obtain ⟨oldField, oldMem, rfl⟩ := List.mem_map.mp hasOld
  obtain ⟨newField, newMem, rfl⟩ := List.mem_map.mp hasNew
  obtain ⟨before, after, rfl⟩ := List.append_of_mem oldMem
  rcases List.mem_append.mp newMem with early | late
  · obtain ⟨front, middle, rfl⟩ := List.append_of_mem early
    exact ⟨front, newField, middle, oldField, after, by simp, Or.inr ⟨rfl, rfl⟩⟩
  · have behind : newField ∈ after :=
      List.mem_of_ne_of_mem (fun same => differ (congrArg Prod.fst same.symm)) late
    obtain ⟨middle, back, rfl⟩ := List.append_of_mem behind
    exact ⟨before, oldField, middle, newField, back, rfl, Or.inl ⟨rfl, rfl⟩⟩

theorem renameField_of_mem {field : String × Value} (named : field.1 = old ∨ field.1 = new) :
    renameField old new field = (new, field.2) := by
  by_cases isOld : field.1 = old
  · rw [renameField, if_pos isOld]
  · rw [renameField_of_ne isOld, ← named.resolve_left isOld]

/-- Two fields that come to have one name become one field. -/
theorem rename_of_two {before middle after : Fields} {first second : String × Value}
    (firstNamed : first.1 = old ∨ first.1 = new) (secondNamed : second.1 = old ∨ second.1 = new)
    (oldApart : old ∉ Entries.keys (before ++ middle ++ after))
    (distinct : Entries.Distinct (before ++ (new, first.2) :: (middle ++ after))) :
    rename (before ++ first :: (middle ++ second :: after)) old new =
      before ++ (new, second.2) :: (middle ++ after) := by
  simp only [Entries.keys, List.map_append, List.mem_append, not_or] at oldApart
  obtain ⟨⟨notBefore, notBetween⟩, notAfter⟩ := oldApart
  change Entries.collect (List.map (renameField old new) _) = _
  rw [List.map_append, List.map_cons, List.map_append, List.map_cons,
    map_renameField_of_not_mem notBefore, map_renameField_of_not_mem notBetween,
    map_renameField_of_not_mem notAfter, renameField_of_mem firstNamed,
    renameField_of_mem secondNamed, Entries.collect_of_repeated distinct]

theorem merged_rename (distinct : Entries.Distinct document)
    (hasOld : old ∈ Entries.keys document)
    (taken : new ∈ Entries.keys (Entries.erase document old)) :
    Merged old new document (rename document old new) := by
  obtain ⟨differ, hasNew⟩ := Entries.mem_keys_erase.mp taken
  obtain ⟨before, first, middle, second, after, rfl, names⟩ :=
    exists_eq_append differ.symm hasOld hasNew
  obtain ⟨firstApart, restDistinct⟩ := Entries.distinct_middle.mp distinct
  rw [← List.append_assoc] at restDistinct
  obtain ⟨secondApart, othersDistinct⟩ := Entries.distinct_middle.mp restDistinct
  rw [← List.append_assoc, Entries.mem_keys_middle, not_or] at firstApart
  have apart : old ∉ Entries.keys (before ++ middle ++ after) ∧
      new ∉ Entries.keys (before ++ middle ++ after) := by
    rcases names with ⟨rfl, rfl⟩ | ⟨rfl, rfl⟩
    · exact ⟨firstApart.2, secondApart⟩
    · exact ⟨secondApart, firstApart.2⟩
  have mergedDistinct : Entries.Distinct (before ++ (new, first.2) :: (middle ++ after)) := by
    apply Entries.distinct_middle.mpr
    rw [← List.append_assoc]
    exact ⟨apart.2, othersDistinct⟩
  rw [rename_of_two (names.imp And.left And.left) (names.symm.imp And.right And.right) apart.1
    mergedDistinct]
  refine ⟨⟨before, first, middle, second, after, rfl, names, rfl⟩, ?_⟩
  simp only [List.length_append, List.length_cons]
  omega

end Fields

namespace Workbook

variable {settings : Settings} {workbook : Workbook}

theorem rowsField_finalStore :
    (workbook.finalStore settings).rowsField = settings.rowsField :=
  (Store.rowsField_applyPatchesFrom 0).trans rowsField_settledStore

/-- A table with a `key` option is emitted under its base name. Its document consists of its rows
and of the fields that its patches give. If none of these has the chosen name, every field is
emitted in its place, with the rows under the chosen name; otherwise the rows and that field are
emitted as one. -/
theorem publish_renames_rows {publication : Publication} (formed : workbook.WellFormed)
    (published : workbook.publish settings = .ok publication) {table : Table}
    (tableMem : table ∈ workbook.tables)
    (regular : TableName.kind settings table.name = .regular) {parts : TableName.Parts}
    (hasOptions : TableName.parts? settings.delimiters table.name = some parts) {field : String}
    (chosen : parts.rowsField? = some field) :
    publication.artifacts = workbook.names.filterMap (workbook.artifactOf? settings) ∧
      ∃ document emitted,
        (workbook.finalStore settings).document? table.name = some document ∧
          workbook.artifactOf? settings table.name =
            some { name := parts.base, document := .obj emitted } ∧
          Fields.Patched settings.rowsField
            (table.rows.map fun row => .obj (workbook.resolvedRow settings table.name row))
            (workbook.patchRows settings table.name) document ∧
          if field ∈ Entries.keys (Entries.erase document settings.rowsField) then
            Fields.Merged settings.rowsField field document emitted
          else Fields.Renamed settings.rowsField field document emitted := by
  obtain ⟨unique, _, _, _, rfl⟩ := publish_eq_ok_iff.mp published
  obtain ⟨document, stored, documentFormed, patched⟩ :=
    exists_document?_finalStore formed unique tableMem
  obtain ⟨distinct, _⟩ := Value.wellFormed_obj_iff.mp documentFormed
  refine ⟨rfl, document, Fields.rename document settings.rowsField field, stored, ?_, patched, ?_⟩
  · rw [artifactOf?, Store.artifact?, if_neg (not_not_intro regular), stored, hasOptions]
    dsimp only
    rw [chosen, rowsField_finalStore]
    rfl
  · split
    · rename_i taken
      have hasRows := (patched.keys settings.rowsField).mpr (Or.inl rfl)
      exact Fields.merged_rename distinct hasRows taken
    · rename_i free
      exact Fields.renamed_rename distinct free

/-- A table whose rows are emitted under a name of their own. -/
def listed : Table :=
  { name := "Items$key=list", rows := [[("id", .str "1")], [("id", .str "2")]] }

/-- A table over a patch that has rows of its own and fields around them. -/
def extended : Workbook :=
  { tables :=
      [listed,
       { name := "!Items"
         rows := [[("version", .str "7"), ("data", .arr [.null]), ("note.by", .str "x")]] }] }

theorem publish_renames_rows_extended :
    ∃ document emitted,
      (extended.finalStore {}).document? "Items$key=list" = some document ∧
        extended.artifactOf? {} "Items$key=list" =
          some { name := "Items", document := .obj emitted } ∧
        Entries.keys document = ["version", "data", "note"] ∧
        Entries.keys emitted = ["version", "list", "note"] ∧
        Fields.Renamed "data" "list" document emitted := by
  obtain ⟨publication, published⟩ :=
    exists_publish_eq_ok (by decide +kernel : (extended.publish {}).isOk = true)
  have formed : extended.WellFormed := by
    simp [WellFormed, extended, listed, Value.WellFormed, Value.WellFormedItems,
      Value.WellFormedFields, Value.WellFormedField, Entries.Distinct, Entries.keys]
  have member : listed ∈ extended.tables := by simp [extended]
  obtain ⟨_, document, emitted, stored, isEmitted, _, shape⟩ :=
    publish_renames_rows formed published member (by decide)
      (rfl : TableName.parts? {} "Items$key=list" =
        some { base := "Items", options := [("key", "list")] })
      (rfl : _ = some "list")
  have documentKeys : ((extended.finalStore {}).document? "Items$key=list").map Entries.keys =
      some ["version", "data", "note"] := by decide +kernel
  have storedHere : (extended.finalStore {}).document? "Items$key=list" = some document := stored
  have isEmittedHere : extended.artifactOf? {} "Items$key=list" =
      some { name := "Items", document := .obj emitted } := isEmitted
  rw [storedHere, Option.map_some, Option.some_inj] at documentKeys
  have free : "list" ∉ Entries.keys (Entries.erase document "data") := by
    rw [Entries.mem_keys_erase, documentKeys]
    decide
  rw [if_neg free] at shape
  have emittedKeys : Entries.keys emitted = ["version", "list", "note"] := by
    rw [shape.inPlace, Fields.keys_map_renameField, documentKeys]
    decide
  exact ⟨document, emitted, storedHere, isEmittedHere, documentKeys, emittedKeys, shape⟩

/-- Tables over patches that have a field of the name chosen for the rows, in front of the rows
and behind them. -/
def crowded : Workbook :=
  { tables :=
      [{ name := "Items$key=list", rows := [[("id", .str "1")]] },
       { name := "!Items", rows := [[("list", .str "x")]] },
       { name := "Units$key=all", rows := [[("id", .str "2")]] },
       { name := "!Units", rows := [[("data", .null), ("all", .str "y")]] }] }

/-- The field in front of the rows is lost, and so are the rows in front of the field. -/
theorem artifacts_crowded :
    ((crowded.finalStore {}).document? "Items$key=list").map Entries.keys =
        some ["list", "data"] ∧
      ((crowded.finalStore {}).document? "Units$key=all").map Entries.keys =
        some ["data", "all"] ∧
      (crowded.publish {}).toOption.map Publication.artifacts =
        some
          [{ name := "Items", document := .obj [("list", .arr [.obj [("id", .str "1")]])] },
           { name := "Units", document := .obj [("all", .str "y")] }] := by
  decide +kernel

end Workbook

end Tabula

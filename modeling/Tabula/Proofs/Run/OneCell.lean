import Mathlib.Data.List.Forall2
import Tabula.Proofs.Row.Unfolding
import Tabula.Proofs.Run.Emission
import Tabula.Proofs.Run.History
import Tabula.Proofs.Run.InTurn
import Tabula.Proofs.Value.Leaves

/-!
# Runs that differ in cells of one link

Rows that differ in the cell of a link have the same keys, so the same columns wait in the same
order. A path below the key of the link takes no notice of a scalar there, and no other column reads
the cell except to choose among rows. So until the link has its turn the rows have the same
cells, apart from its own and from fields that hold linked rows in both runs.
-/

namespace Tabula

/-- A path has a segment below its root. -/
theorem Column.exists_segments_eq {d : Delimiters} {key : String} {segments : List String}
    (read : ofKey d key = .ok (.path segments)) :
    ∃ root segment rest, segments = root :: segment :: rest := by
  obtain ⟨inside, rfl⟩ := ofKey_eq_path_iff.mp read
  have several : 1 < ((key.toList.splitOn d.path).map String.ofList).length := by
    rw [List.length_map, Text.length_splitOn]
    have := List.count_pos_iff.mpr inside
    omega
  match (key.toList.splitOn d.path).map String.ofList, several with
  | root :: segment :: rest, _ => exact ⟨root, segment, rest, rfl⟩

theorem Column.ne_of_path {d : Delimiters} {path key : String} {segments : List String}
    (read : ofKey d path = .ok (.path segments)) (isLinkKey : isLink d key = true) :
    path ≠ key := by
  rintro rfl
  rw [isLink, of?_eq_some_iff.mpr read] at isLinkKey
  cases isLinkKey

namespace Fields

/-- Two records with the same keys and the same cells, except that under one key they may have
different scalars. -/
structure SameBut (key : String) (left right : Fields) : Prop where
  keys : Entries.keys left = Entries.keys right
  cells : ∀ name, name ≠ key → Entries.get? left name = Entries.get? right name
  cell : Entries.get? left key = Entries.get? right key ∨
    ∀ record ∈ [left, right], ∀ value ∈ Entries.get? record key, value.isContainer = false

/-- Two records with the same keys and, except under one of them, the same cells or linked rows in
both. -/
structure Kin (key : String) (left right : Fields) : Prop where
  keys : Entries.keys left = Entries.keys right
  cells : ∀ name, name ≠ key → Entries.get? left name = Entries.get? right name ∨
    ∃ first second : List Fields, Entries.get? left name = some (.arr (first.map .obj)) ∧
      Entries.get? right name = some (.arr (second.map .obj))

section SameBut

variable {key name path root segment : String} {rest : List String} {left right : Fields}
  {value : Value}

theorem SameBut.refl (key : String) (record : Fields) : SameBut key record record where
  keys := rfl
  cells _ _ := rfl
  cell := Or.inl rfl

/-- Records that have different scalars at one place. -/
theorem sameBut_append_cons {front behind : Fields} {other : Value}
    (distinct : Entries.Distinct (front ++ (key, value) :: behind))
    (scalar : value.isContainer = false) (otherScalar : other.isContainer = false) :
    SameBut key (front ++ (key, value) :: behind) (front ++ (key, other) :: behind) := by
  have fresh : key ∉ Entries.keys front := by
    rw [Entries.Distinct, Entries.keys, List.map_append, List.nodup_append] at distinct
    exact fun inside => distinct.2.2 key inside key List.mem_cons_self rfl
  constructor
  · simp [Entries.keys]
  · intro name differ
    rw [Entries.get?_append_cons value fresh, Entries.get?_append_cons other fresh,
      if_neg differ.symm, if_neg differ.symm]
  · right
    simp only [List.forall_mem_cons, Entries.get?_append_cons _ fresh, if_pos, Option.mem_some]
    exact ⟨fun _ isValue => isValue ▸ scalar, fun _ isValue => isValue ▸ otherScalar,
      fun _ inside => absurd inside List.not_mem_nil⟩

theorem SameBut.kin (same : SameBut key left right) : Kin key left right where
  keys := same.keys
  cells name differ := Or.inl (same.cells name differ)

/-- Records with the same cell under the key as well are the same. -/
theorem SameBut.eq (same : SameBut key left right) (distinct : Entries.Distinct left)
    (sameCell : Entries.get? left key = Entries.get? right key) : left = right := by
  apply Entries.eq_of_keys_eq distinct same.keys
  intro name _
  by_cases isKey : name = key
  · rw [isKey, sameCell]
  · exact same.cells name isKey

theorem SameBut.erase (same : SameBut key left right) (differ : path ≠ key) :
    SameBut key (Entries.erase left path) (Entries.erase right path) where
  keys := by rw [Entries.keys_erase, Entries.keys_erase, same.keys]
  cells name notKey := by rw [Entries.get?_erase, Entries.get?_erase, same.cells name notKey]
  cell := by
    simp only [List.forall_mem_cons, Entries.get?_erase, if_neg differ]
    simpa only [List.forall_mem_cons] using same.cell

theorem SameBut.put (same : SameBut key left right) (name : String) (value : Value) :
    SameBut key (Entries.put left name value) (Entries.put right name value) where
  keys := by rw [Entries.keys_put, Entries.keys_put, same.keys]
  cells other notKey := by rw [Entries.get?_put, Entries.get?_put, same.cells other notKey]
  cell := by
    simp only [List.forall_mem_cons, Entries.get?_put]
    by_cases isKey : name = key
    · simp [isKey]
    · simpa only [List.forall_mem_cons, if_neg isKey] using same.cell

/-- A value that is moved below a scalar takes its place. -/
theorem SameBut.branch_eq (same : SameBut key left right) (root segment : String)
    (rest : List String) (value : Value) :
    branch left root (segment :: rest) value = branch right root (segment :: rest) value := by
  have branch_of_scalar {record : Fields}
      (scalar : ∀ value ∈ Entries.get? record root, value.isContainer = false) :
      branch record root (segment :: rest) value = Value.nested (segment :: rest) value := by
    rw [branch]
    cases found : Entries.get? record root with
    | none => rfl
    | some existing =>
        have noObject := Value.fields?_eq_none_of_isContainer_eq_false (scalar existing found)
        exact Value.overlay_nested_of_fields?_eq_none noObject segment rest value
  have congr (equal : Entries.get? left root = Entries.get? right root) :
      branch left root (segment :: rest) value = branch right root (segment :: rest) value := by
    rw [branch, branch, equal]
  by_cases isKey : root = key
  · subst isKey
    rcases same.cell with equal | scalars
    · exact congr equal
    · rw [branch_of_scalar (scalars left (by simp)), branch_of_scalar (scalars right (by simp))]
  · exact congr (same.cells root isKey)

theorem SameBut.unfold (same : SameBut key left right) (differ : path ≠ key)
    (root segment : String) (rest : List String) :
    SameBut key (Fields.unfold left path (root :: segment :: rest))
      (Fields.unfold right path (root :: segment :: rest)) := by
  have sameValue := same.cells path differ
  cases found : Entries.get? left path with
  | none =>
      rw [unfold_of_get?_eq_none found, unfold_of_get?_eq_none (sameValue.symm.trans found)]
      exact same
  | some value =>
      rw [unfold_cons_of_get?_eq_some found,
        unfold_cons_of_get?_eq_some (sameValue.symm.trans found),
        (same.erase differ).branch_eq root segment rest value]
      exact (same.erase differ).put root _

/-- What is moved below the key makes the records equal. -/
theorem SameBut.unfold_eq (same : SameBut key left right) (distinct : Entries.Distinct left)
    (differ : path ≠ key) (present : path ∈ Entries.keys left) (segment : String)
    (rest : List String) :
    Fields.unfold left path (key :: segment :: rest) =
      Fields.unfold right path (key :: segment :: rest) := by
  have sameValue := same.cells path differ
  obtain ⟨value, found⟩ := Entries.exists_get?_eq_some present
  rw [unfold_cons_of_get?_eq_some found,
    unfold_cons_of_get?_eq_some (sameValue.symm.trans found),
    (same.erase differ).branch_eq key segment rest value]
  apply ((same.erase differ).put key _).eq
  · exact Entries.distinct_put (Entries.distinct_erase distinct path) key _
  · rw [Entries.get?_put, Entries.get?_put, if_pos rfl, if_pos rfl]

theorem SameBut.unfoldColumn {d : Delimiters} (isLink : Column.isLink d key = true)
    (same : SameBut key left right) (column : String) :
    SameBut key (unfoldColumn d left column) (unfoldColumn d right column) := by
  unfold Fields.unfoldColumn
  cases read : Column.ofKey d column with
  | error fault => exact same
  | ok meaning =>
      cases meaning with
      | plain => exact same
      | link link => exact same
      | path segments =>
          obtain ⟨root, segment, rest, rfl⟩ := Column.exists_segments_eq read
          exact same.unfold (Column.ne_of_path read isLink) root segment rest

end SameBut

end Fields

/-- What a link embeds are rows. -/
theorem Link.exists_linkedRows_eq (settings : Settings) (link : Link) (record : Fields)
    (cell : Value) (targetRows : List Value) :
    ∃ rows : List Fields, link.linkedRows settings record cell targetRows = rows.map .obj := by
  refine ⟨((targetRows.filterMap Value.fields?).filter (accepts (link.matching record).field
    (link.tokens settings record cell))).map (visible settings), ?_⟩
  rw [linkedRows, List.map_map]
  rfl

namespace Store

/-! ### The first pass -/

section FirstPass

variable {settings : Settings} {store : Store} {key path : String} {left right : Fields}
  (nothing : ∀ name, store.rows? name = none)
  (isLink : Column.isLink settings.delimiters key = true)
include nothing

/-- While nothing is stored, links wait and paths are unfolded. -/
theorem applyColumn_of_nothing (record : Fields) (column : String) :
    store.applyColumn settings record column =
      Fields.unfoldColumn settings.delimiters record column := by
  cases isLink : Column.isLink settings.delimiters column with
  | false => exact applyColumn_of_isLink_eq_false isLink
  | true =>
      obtain ⟨link, read⟩ := Column.isLink_eq_true_iff.mp isLink
      rw [applyColumn_of_postpones (postpones_eq_true_iff.mpr ⟨link, read, nothing link.target⟩),
        Fields.unfoldColumn_of_isPath_eq_false (Column.isPath_eq_false_of_link read)]

include isLink

theorem sameBut_applyColumn (same : Fields.SameBut key left right) (column : String) :
    Fields.SameBut key (store.applyColumn settings left column)
      (store.applyColumn settings right column) := by
  rw [applyColumn_of_nothing nothing, applyColumn_of_nothing nothing]
  exact same.unfoldColumn isLink column

theorem sameBut_foldl_applyColumn (same : Fields.SameBut key left right) (columns : List String) :
    Fields.SameBut key (columns.foldl (store.applyColumn settings) left)
      (columns.foldl (store.applyColumn settings) right) := by
  induction columns generalizing left right with
  | nil => exact same
  | cons column columns ih => exact ih (sameBut_applyColumn nothing isLink same column)

/-- Records that have a path below the key are the same once it has been unfolded. -/
theorem foldl_applyColumn_eq_of_root (same : Fields.SameBut key left right)
    (distinct : Entries.Distinct left) {segments : List String}
    (read : Column.ofKey settings.delimiters path = .ok (.path segments))
    (isRoot : segments.head? = some key) (present : path ∈ Entries.keys left)
    {columns : List String} (pathMem : path ∈ columns) :
    columns.foldl (store.applyColumn settings) left =
      columns.foldl (store.applyColumn settings) right := by
  induction columns generalizing left right with
  | nil => cases pathMem
  | cons column columns ih =>
      rw [List.foldl_cons, List.foldl_cons]
      -- In front of the path the records differ under the key; from the path on they are equal.
      by_cases here : path = column
      · subst here
        obtain ⟨root, segment, rest, rfl⟩ := Column.exists_segments_eq read
        obtain rfl := Option.some.inj isRoot
        rw [applyColumn_of_path read, applyColumn_of_path read,
          same.unfold_eq distinct (Column.ne_of_path read isLink) present]
      · exact ih (sameBut_applyColumn nothing isLink same column) (distinct_applyColumn distinct)
          (mem_keys_applyColumn here present) ((List.mem_cons.mp pathMem).resolve_left here)

theorem sameBut_applyColumns (same : Fields.SameBut key left right) :
    Fields.SameBut key (store.applyColumns settings left) (store.applyColumns settings right) := by
  rw [applyColumns, applyColumns, ← same.keys]
  exact sameBut_foldl_applyColumn nothing isLink same _

theorem applyColumns_eq_of_root (same : Fields.SameBut key left right)
    (distinct : Entries.Distinct left) (isRoot : key ∈ Fields.roots settings.delimiters left) :
    store.applyColumns settings left = store.applyColumns settings right := by
  obtain ⟨path, present, segments, read, headed⟩ := Fields.mem_roots.mp isRoot
  rw [applyColumns, applyColumns, ← same.keys]
  exact foldl_applyColumn_eq_of_root nothing isLink same distinct read headed present present

end FirstPass

/-! ### Settling -/

section Settling

variable {settings : Settings} {store other : Store} {name key field : String}
  {left right record : Fields}

/-- A link puts linked rows into its field in both records. -/
theorem kin_applyColumn (kin : Fields.Kin key left right) {link : Link} {column : String}
    (read : Column.ofKey settings.delimiters column = .ok (.link link)) {rows others : List Fields}
    (stored : store.rows? link.target = some (rows.map .obj))
    (otherStored : other.rows? link.target = some (others.map .obj)) :
    Fields.Kin key (store.applyColumn settings left column)
      (other.applyColumn settings right column) := by
  have samePresence : column ∈ Entries.keys left ↔ column ∈ Entries.keys right := by
    rw [kin.keys]
  by_cases present : column ∈ Entries.keys left
  · obtain ⟨cell, found⟩ := Entries.exists_get?_eq_some present
    obtain ⟨otherCell, otherFound⟩ := Entries.exists_get?_eq_some (samePresence.mp present)
    rw [applyColumn_of_link read stored, applyColumn_of_link read otherStored]
    constructor
    · rw [Link.embed, Link.embed, found, otherFound]
      dsimp only
      rw [Entries.keys_put, Entries.keys_put, Entries.keys_erase, Entries.keys_erase, kin.keys]
    · intro wanted notKey
      rw [Link.get?_embed found, Link.get?_embed otherFound]
      by_cases isField : link.field = wanted
      · obtain ⟨first, firstEq⟩ := link.exists_linkedRows_eq settings left cell (rows.map .obj)
        obtain ⟨second, secondEq⟩ :=
          link.exists_linkedRows_eq settings right otherCell (others.map .obj)
        rw [if_pos isField, if_pos isField, firstEq, secondEq]
        exact Or.inr ⟨first, second, rfl, rfl⟩
      · rw [if_neg isField, if_neg isField]
        by_cases isColumn : column = wanted
        · rw [if_pos isColumn, if_pos isColumn]
          exact Or.inl rfl
        · rw [if_neg isColumn, if_neg isColumn]
          exact kin.cells wanted notKey
  · rw [applyColumn_of_absent (Entries.get?_eq_none_iff.mpr present),
      applyColumn_of_absent (Entries.get?_eq_none_iff.mpr (mt samePresence.mpr present))]
    exact kin

/-- Pending links of a table to the table itself. -/
def SelfLinks (settings : Settings) (name : String) (pending : List Pending) : Prop :=
  ∀ entry ∈ pending, entry.table = name ∧
    ∃ link, Column.ofKey settings.delimiters entry.key = .ok (.link link) ∧ link.target = name

/-- The rows of a table stay kin while links of the table to itself are settled. -/
theorem kin_settledRow {pending : List Pending} (selfLinks : SelfLinks settings name pending)
    {rows otherRows : List Fields}
    (stored : store.rows? name = some (rows.map .obj))
    (otherStored : other.rows? name = some (otherRows.map .obj))
    (kin : List.Forall₂ (Fields.Kin key) rows otherRows) :
    List.Forall₂ (Fields.Kin key) (rows.map (store.settledRow settings name pending))
      (otherRows.map (other.settledRow settings name pending)) := by
  -- A settled column changes the rows that the next one looks at, so these vary in the induction.
  induction pending generalizing store other rows otherRows with
  | nil => simpa [settledRow] using kin
  | cons entry pending ih =>
      rw [SelfLinks, List.forall_mem_cons] at selfLinks
      obtain ⟨own, link, read, target⟩ := selfLinks.1
      have settled {store : Store} {rows : List Fields}
          (stored : store.rows? name = some (rows.map .obj)) :
          (store.settleColumn settings entry).rows? name =
            some ((rows.map fun row => store.applyColumn settings row entry.key).map .obj) := by
        rw [rows?_settleColumn, if_pos own, stored, Option.map_some, List.map_map, List.map_map]
        rfl
      have step : List.Forall₂ (Fields.Kin key)
          (rows.map fun row => store.applyColumn settings row entry.key)
          (otherRows.map fun row => other.applyColumn settings row entry.key) := by
        rw [List.forall₂_map_left_iff, List.forall₂_map_right_iff]
        refine kin.imp fun row otherRow isKin => ?_
        exact kin_applyColumn isKin read (target ▸ stored) (target ▸ otherStored)
      have rest := ih selfLinks.2 (settled stored) (settled otherStored) step
      rw [List.map_map, List.map_map] at rest
      simpa [settledRow, own, Function.comp_def] using rest

end Settling

end Store

/-! ### A table alone -/

/-- The workbook with one table. -/
def Table.alone (table : Table) : Workbook :=
  { tables := [table] }

/-- Two tables of one name whose rows differ in the cells under one key alone. -/
structure Table.SameBut (key : String) (left right : Table) : Prop where
  name : left.name = right.name
  rows : List.Forall₂ (Fields.SameBut key) left.rows right.rows

namespace Table

variable {settings : Settings} {key : String} {left right table : Table} {entry : Pending}

/-- A table with a row between others. -/
def around (name : String) (earlier later : List Fields) (row : Fields) : Table :=
  { name, rows := earlier ++ row :: later }

theorem sameBut_around (name : String) (earlier later : List Fields) {row other : Fields}
    (rowSame : Fields.SameBut key row other) :
    SameBut key (around name earlier later row) (around name earlier later other) where
  name := rfl
  rows := by
    have refl (rows : List Fields) : List.Forall₂ (Fields.SameBut key) rows rows :=
      List.forall₂_same.mpr fun row _ => Fields.SameBut.refl key row
    exact List.rel_append (refl earlier) (List.Forall₂.cons rowSame (refl later))

theorem nodup_names_alone (table : Table) : table.alone.names.Nodup :=
  List.nodup_singleton _

theorem mem_alone (table : Table) : table ∈ table.alone.tables :=
  List.mem_cons_self

/-- The rows of a table alone after the first pass, in which no table has rows. -/
def unlinkedRows (settings : Settings) (table : Table) : List Fields :=
  table.rows.map (Store.applyColumns settings { rowsField := settings.rowsField })

theorem storedBefore_alone :
    table.alone.storedBefore settings table.name = { rowsField := settings.rowsField } := by
  simp [Workbook.storedBefore, Workbook.tablesBefore, alone]

/-- Every link of a table alone waits. -/
theorem postpones_alone (isLink : Column.isLink settings.delimiters key = true) :
    (table.alone.storedBefore settings table.name).postpones settings key = true := by
  obtain ⟨link, read⟩ := Column.isLink_eq_true_iff.mp isLink
  rw [storedBefore_alone]
  exact Store.postpones_eq_true_iff.mpr ⟨link, read, rfl⟩

theorem rows?_firstPass_alone :
    (table.alone.firstPass settings).store.rows? table.name =
      some ((table.unlinkedRows settings).map .obj) := by
  rw [Workbook.rows?_firstPass table.nodup_names_alone table.mem_alone, storedBefore_alone]
  rfl

theorem rowsInTurn_alone (own : entry.table = table.name) :
    table.alone.rowsInTurn settings entry =
      (table.unlinkedRows settings).map (Store.settledRow settings table.name
        (table.alone.settledBefore settings entry) (table.alone.firstPass settings).store) := by
  rw [Workbook.rowsInTurn_eq table.nodup_names_alone table.mem_alone own, unlinkedRows,
    List.map_map]
  apply List.map_congr_left
  intro row _
  rw [Workbook.rowInTurn, own, storedBefore_alone]
  rfl

theorem length_rowsInTurn_alone (own : entry.table = table.name) :
    (table.alone.rowsInTurn settings entry).length = table.rows.length := by
  rw [rowsInTurn_alone own, List.length_map, unlinkedRows, List.length_map]

/-- The cell of a link that waits is still there in its turn, unless a path writes over it. -/
theorem get?_rowInTurn_alone {row : Fields} (isLink : Column.isLink settings.delimiters key = true)
    (notRoot : key ∉ Fields.roots settings.delimiters row) :
    Entries.get? (table.alone.rowInTurn settings ⟨table.name, key⟩ row) key =
      Entries.get? row key :=
  Workbook.get?_rowInTurn (postpones_alone isLink) notRoot

theorem SameBut.map_keys_eq (same : SameBut key left right) :
    left.rows.map Entries.keys = right.rows.map Entries.keys := by
  rw [← List.forall₂_eq_eq_eq, List.forall₂_map_left_iff, List.forall₂_map_right_iff]
  exact same.rows.imp fun _ _ rowSame => rowSame.keys

/-- Which columns wait, and in which order, and whether a key is faulty, is seen in the keys. -/
theorem SameBut.entries_eq (same : SameBut key left right) :
    (left.alone.firstPass settings).backlog.entries =
      (right.alone.firstPass settings).backlog.entries := by
  have postponed (table : Table) : (table.alone.firstPass settings).backlog.entries =
      ((table.rows.map Entries.keys).flatMap fun keys =>
        (keys.filter (Store.postpones settings { rowsField := settings.rowsField })).map
          (Pending.mk table.name)).eraseDups := by
    rw [Workbook.entries_firstPass, alone, Store.postponedFrom, Store.postponedFrom,
      List.append_nil, List.flatMap_map]
    rfl
  rw [postponed, postponed, same.name, same.map_keys_eq]

theorem SameBut.keyFault?_eq (same : SameBut key left right) :
    left.alone.keyFault? settings = right.alone.keyFault? settings := by
  have ofKeys (table : Table) : table.alone.keyFault? settings =
      (table.rows.map Entries.keys).findSome? fun keys =>
        keys.findSome? (Column.fault? settings.delimiters [table.name] table.name) := by
    rw [List.findSome?_map, Workbook.keyFault?, alone, List.findSome?_singleton]
    rfl
  rw [ofKeys, ofKeys, same.name, same.map_keys_eq]

/-- So which columns are settled behind another one, and which of them a row may have. -/
theorem SameBut.setsLast_iff (same : SameBut key left right) {row other : Fields}
    (rowSame : Fields.SameBut key row other) {field : String} :
    left.alone.SetsLast settings entry field row ↔
      right.alone.SetsLast settings entry field other := by
  rw [Workbook.SetsLast, Workbook.SetsLast, Workbook.settledBehind, Workbook.settledBehind,
    same.entries_eq, Fields.roots, Fields.roots, rowSame.keys]

/-- In a table alone every link leads to the table itself. -/
theorem selfLinks_alone (faultless : table.alone.keyFault? settings = none) :
    Store.SelfLinks settings table.name (table.alone.firstPass settings).backlog.entries := by
  intro entry waits
  obtain ⟨own, ownMem, sameTable, row, rowMem, keyMem, link, read⟩ :=
    Workbook.exists_of_mem_entries_firstPass waits
  obtain rfl := List.mem_singleton.mp ownMem
  have keyFaultless :=
    Workbook.keyFault?_eq_none_iff.mp faultless own ownMem row rowMem entry.key keyMem
  exact ⟨sameTable, link, read,
    List.mem_singleton.mp (Column.mem_of_fault?_eq_none keyFaultless read)⟩

/-- A link of a table alone is in the backlog if a row has its key. -/
theorem mem_entries_alone {row : Fields} (rowMem : row ∈ table.rows)
    (keyMem : key ∈ Entries.keys row) (isLink : Column.isLink settings.delimiters key = true) :
    (⟨table.name, key⟩ : Pending) ∈ (table.alone.firstPass settings).backlog.entries :=
  Workbook.mem_entries_firstPass table.nodup_names_alone table.mem_alone rowMem keyMem
    (postpones_alone isLink)

/-- When a column has its turn, the rows of the two tables are kin. -/
theorem SameBut.kin_rowsInTurn (same : SameBut key left right)
    (isLink : Column.isLink settings.delimiters key = true)
    (faultless : left.alone.keyFault? settings = none) (own : entry.table = left.name) :
    List.Forall₂ (Fields.Kin key) (left.alone.rowsInTurn settings entry)
      (right.alone.rowsInTurn settings entry) := by
  have nothing (name : String) :
      ({ rowsField := settings.rowsField } : Store).rows? name = none := rfl
  have sameBefore : right.alone.settledBefore settings entry =
      left.alone.settledBefore settings entry := by
    rw [Workbook.settledBefore, Workbook.settledBefore, same.entries_eq]
  rw [rowsInTurn_alone own, rowsInTurn_alone (own.trans same.name), sameBefore, ← same.name]
  apply Store.kin_settledRow (fun other before =>
    selfLinks_alone faultless other (Workbook.mem_settledBefore before).1) rows?_firstPass_alone
  · rw [same.name]
    exact rows?_firstPass_alone
  · rw [unlinkedRows, unlinkedRows, List.forall₂_map_left_iff, List.forall₂_map_right_iff]
    exact same.rows.imp fun _ _ rowSame =>
      (Store.sameBut_applyColumns nothing isLink rowSame).kin

/-- Tables with the same rows after the first pass have the same rows in every turn. -/
theorem SameBut.rowsInTurn_eq (same : SameBut key left right) (own : entry.table = left.name)
    (sameRows : left.unlinkedRows settings = right.unlinkedRows settings) :
    left.alone.rowsInTurn settings entry = right.alone.rowsInTurn settings entry := by
  have sameStore : (left.alone.firstPass settings).store =
      (right.alone.firstPass settings).store := by
    have stored (table : Table) : (table.alone.firstPass settings).store =
        Store.putRows { rowsField := settings.rowsField } table.name
          ((table.unlinkedRows settings).map .obj) := by
      rw [Workbook.store_firstPass, alone, List.foldl_cons, List.foldl_nil, Store.addTable,
        unlinkedRows, List.map_map]
      rfl
    rw [stored, stored, same.name, sameRows]
  rw [rowsInTurn_alone own, rowsInTurn_alone (own.trans same.name), Workbook.settledBefore,
    Workbook.settledBefore, same.entries_eq, sameStore, sameRows, same.name]

end Table

end Tabula

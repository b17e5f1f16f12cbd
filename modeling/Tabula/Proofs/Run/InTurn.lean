import Mathlib.Data.List.Basic
import Tabula.Proofs.RowLocality

/-!
# A pending column in its turn

The backlog is settled column by column, so a pending column is resolved against the rows that the
columns before it have left. Afterwards its field is set anew only by a link to the same field that
stands behind it.
-/

namespace Tabula

namespace Store

variable {settings : Settings} {store : Store} {name : String} {record : Fields}
  {pending : List Pending} {among : List String}
  (links : ∀ entry ∈ pending, Column.isLink settings.delimiters entry.key = true)
include links

theorem linkKeysAmong_settledRow
    (bounded : Fields.LinkKeysAmong settings.delimiters among record) :
    Fields.LinkKeysAmong settings.delimiters among
      (store.settledRow settings name pending record) := by
  induction pending generalizing store record with
  | nil => exact bounded
  | cons entry pending ih =>
      rw [List.forall_mem_cons] at links
      rw [settledRow]
      apply ih links.2
      split
      · exact bounded.applyColumn_link links.1
      · exact bounded

/-- Settling changes no field but the keys of the links and the fields that they set. Links whose
keys the record cannot have set nothing. -/
theorem get?_settledRow_of_apart {wanted : String}
    (bounded : Fields.LinkKeysAmong settings.delimiters among record)
    (apart : ∀ entry ∈ pending, entry.table = name → entry.key ≠ wanted ∧
      (entry.key ∈ among →
        Column.createdBy? settings.delimiters entry.key ≠ some wanted)) :
    Entries.get? (store.settledRow settings name pending record) wanted =
      Entries.get? record wanted := by
  induction pending generalizing store record with
  | nil => rfl
  | cons entry pending ih =>
      rw [List.forall_mem_cons] at links apart
      rw [settledRow]
      by_cases own : entry.table = name
      · obtain ⟨notWanted, notSet⟩ := apart.1 own
        have kept : Entries.get? (store.applyColumn settings record entry.key) wanted =
            Entries.get? record wanted := by
          rcases applyColumn_eq_or settings store record entry.key with
            same | ⟨created, value, made, changed⟩
          · rw [same]
          · by_cases present : entry.key ∈ Entries.keys record
            · have differ : created ≠ wanted := fun equal =>
                notSet (bounded entry.key present links.1) (equal ▸ made)
              rw [changed, Entries.get?_put, if_neg differ, Entries.get?_erase, if_neg notWanted]
            · rw [applyColumn_of_absent (Entries.get?_eq_none_iff.mpr present)]
        rw [if_pos own, ih links.2 (bounded.applyColumn_link links.1) apart.2, kept]
      · rw [if_neg own]
        exact ih links.2 bounded apart.2

end Store

namespace Workbook

/-- The columns that are settled before a pending one. -/
def settledBefore (settings : Settings) (workbook : Workbook) (entry : Pending) : List Pending :=
  (workbook.firstPass settings).backlog.entries.takeWhile (· ≠ entry)

/-- The columns that are settled behind a pending one. -/
def settledBehind (settings : Settings) (workbook : Workbook) (entry : Pending) : List Pending :=
  ((workbook.firstPass settings).backlog.entries.dropWhile (· ≠ entry)).tail

/-- The store that a pending column is resolved against in its turn. -/
def storeInTurn (settings : Settings) (workbook : Workbook) (entry : Pending) : Store :=
  (workbook.settledBefore settings entry).foldl (Store.settleColumn settings)
    (workbook.firstPass settings).store

/-- The rows of the table of a pending column when the column has its turn. -/
def rowsInTurn (settings : Settings) (workbook : Workbook) (entry : Pending) : List Fields :=
  (((workbook.storeInTurn settings entry).rows? entry.table).getD []).filterMap Value.fields?

/-- A row when a pending column of its table has its turn. -/
def rowInTurn (settings : Settings) (workbook : Workbook) (entry : Pending) (row : Fields) :
    Fields :=
  Store.settledRow settings entry.table (workbook.settledBefore settings entry)
    (workbook.firstPass settings).store
    ((workbook.storedBefore settings entry.table).applyColumns settings row)

section InTurn

variable {settings : Settings} {workbook : Workbook} {table : Table} {entry : Pending}
  {row : Fields}

theorem entries_firstPass_eq_append
    (waits : entry ∈ (workbook.firstPass settings).backlog.entries) :
    (workbook.firstPass settings).backlog.entries =
      workbook.settledBefore settings entry ++ entry :: workbook.settledBehind settings entry := by
  have split (entries : List Pending) (waits : entry ∈ entries) :
      entries.dropWhile (· ≠ entry) = entry :: (entries.dropWhile (· ≠ entry)).tail := by
    induction entries with
    | nil => cases waits
    | cons other entries ih =>
        by_cases here : other = entry
        · simp [here]
        · have later := (List.mem_cons.mp waits).resolve_left (Ne.symm here)
          simpa [here] using ih later
  rw [settledBefore, settledBehind, ← split _ waits, List.takeWhile_append_dropWhile]

theorem isLink_of_mem_entries_firstPass
    (waits : entry ∈ (workbook.firstPass settings).backlog.entries) :
    Column.isLink settings.delimiters entry.key = true := by
  obtain ⟨_, _, _, _, _, _, isLink⟩ := exists_of_mem_entries_firstPass waits
  exact Column.isLink_eq_true_iff.mpr isLink

theorem rows?_storeInTurn (unique : workbook.names.Nodup) (member : table ∈ workbook.tables)
    (own : entry.table = table.name) :
    (workbook.storeInTurn settings entry).rows? table.name =
      some ((table.rows.map (workbook.rowInTurn settings entry)).map .obj) := by
  have rowEq : workbook.rowInTurn settings entry = fun row =>
      Store.settledRow settings table.name (workbook.settledBefore settings entry)
        (workbook.firstPass settings).store
        ((workbook.storedBefore settings table.name).applyColumns settings row) := by
    funext row
    rw [rowInTurn, own]
  rw [storeInTurn, Store.rows?_foldl_settleColumn (rows?_firstPass unique member), rowEq,
    List.map_map, List.map_map]
  rfl

theorem rowsInTurn_eq (unique : workbook.names.Nodup) (member : table ∈ workbook.tables)
    (own : entry.table = table.name) :
    workbook.rowsInTurn settings entry = table.rows.map (workbook.rowInTurn settings entry) := by
  rw [rowsInTurn, own, rows?_storeInTurn unique member own, Option.getD_some, List.filterMap_map]
  exact List.filterMap_some

/-- After its turn a row is settled by the columns behind. -/
theorem resolvedRow_eq_settledRow (waits : entry ∈ (workbook.firstPass settings).backlog.entries)
    (row : Fields) :
    workbook.resolvedRow settings entry.table row =
      Store.settledRow settings entry.table (workbook.settledBehind settings entry)
        ((workbook.storeInTurn settings entry).settleColumn settings entry)
        ((workbook.storeInTurn settings entry).applyColumn settings
          (workbook.rowInTurn settings entry row) entry.key) := by
  rw [resolvedRow, entries_firstPass_eq_append waits, Store.settledRow_append, Store.settledRow,
    if_pos rfl]
  rfl

theorem mem_settledBefore {other : Pending}
    (before : other ∈ workbook.settledBefore settings entry) :
    other ∈ (workbook.firstPass settings).backlog.entries ∧ other ≠ entry :=
  ⟨(List.takeWhile_sublist _).subset before,
    of_decide_eq_true (List.all_eq_true.mp List.all_takeWhile other before)⟩

theorem mem_settledBehind {other : Pending}
    (behind : other ∈ workbook.settledBehind settings entry) :
    other ∈ (workbook.firstPass settings).backlog.entries :=
  (List.dropWhile_sublist _).subset (List.mem_of_mem_tail behind)

/-- The cell of a link that waits is still there in its turn, unless a path writes over it. -/
theorem get?_rowInTurn
    (waits : (workbook.storedBefore settings entry.table).postpones settings entry.key = true)
    (notRoot : entry.key ∉ Fields.roots settings.delimiters row) :
    Entries.get? (workbook.rowInTurn settings entry row) entry.key =
      Entries.get? row entry.key := by
  obtain ⟨link, read, _⟩ := Store.postpones_eq_true_iff.mp waits
  have links : ∀ other ∈ workbook.settledBefore settings entry,
      Column.isLink settings.delimiters other.key = true := fun other before =>
    isLink_of_mem_entries_firstPass (mem_settledBefore before).1
  rw [rowInTurn, Store.get?_settledRow_of_apart links (fun key keyMem _ => keyMem),
    Store.get?_applyColumns_of_postpones waits notRoot]
  intro other before own
  have differ : other.key ≠ entry.key := fun same =>
    (mem_settledBefore before).2 (congrArg₂ Pending.mk own same)
  refine ⟨differ, fun _ made => ?_⟩
  obtain ⟨otherLink, otherRead⟩ := Column.isLink_eq_true_iff.mp (links other before)
  have fieldEq := Option.some.inj ((Column.createdBy?_of_link otherRead).symm.trans made)
  exact Column.ne_of_isLink (Column.isLink_eq_true_iff.mpr ⟨link, read⟩)
    (Column.ofKey_field otherRead) fieldEq.symm

/-- A link that waits is still among the keys of the row in its turn. -/
theorem mem_keys_rowInTurn
    (waits : (workbook.storedBefore settings entry.table).postpones settings entry.key = true)
    (present : entry.key ∈ Entries.keys row) :
    entry.key ∈ Entries.keys (workbook.rowInTurn settings entry row) := by
  have settled {pending : List Pending} {store : Store} {record : Fields}
      (others : ∀ other ∈ pending, other.table = entry.table → other.key ≠ entry.key)
      (present : entry.key ∈ Entries.keys record) : entry.key ∈ Entries.keys
        (Store.settledRow settings entry.table pending store record) := by
    induction pending generalizing store record with
    | nil => exact present
    | cons other pending ih =>
        rw [List.forall_mem_cons] at others
        rw [Store.settledRow]
        split
        · rename_i own
          exact ih others.2 (Store.mem_keys_applyColumn (Ne.symm (others.1 own)) present)
        · exact ih others.2 present
  apply settled fun other before own same =>
    (mem_settledBefore before).2 (congrArg₂ Pending.mk own same)
  apply List.foldlRecOn (motive := fun record => entry.key ∈ Entries.keys record) _ _ present
  intro record present column _
  by_cases own : column = entry.key
  · rwa [own, Store.applyColumn_of_postpones waits]
  · exact Store.mem_keys_applyColumn (Ne.symm own) present

/-- No column of a row that is settled behind a pending one sets its field. A row has its own keys,
and as roots those of its paths. -/
def SetsLast (settings : Settings) (workbook : Workbook) (entry : Pending) (field : String)
    (row : Fields) : Prop :=
  ∀ later ∈ workbook.settledBehind settings entry, later.table = entry.table →
    later.key ∈ Entries.keys row ++ Fields.roots settings.delimiters row →
      Column.createdBy? settings.delimiters later.key ≠ some field

instance (settings : Settings) (workbook : Workbook) (entry : Pending) (field : String)
    (row : Fields) : Decidable (workbook.SetsLast settings entry field row) :=
  inferInstanceAs (Decidable (∀ later ∈ workbook.settledBehind settings entry, _))

/-- The field of a link that is the last to set it holds the rows that it has found in its turn. -/
theorem get?_resolvedRow_of_setsLast
    (waits : entry ∈ (workbook.firstPass settings).backlog.entries) {link : Link}
    (read : Column.ofKey settings.delimiters entry.key = .ok (.link link)) {rows : List Value}
    (stored : (workbook.storeInTurn settings entry).rows? link.target = some rows)
    (last : workbook.SetsLast settings entry link.field row) {cell : Value}
    (found : Entries.get? (workbook.rowInTurn settings entry row) entry.key = some cell) :
    Entries.get? (workbook.resolvedRow settings entry.table row) link.field =
      some (.arr (link.linkedRows settings (workbook.rowInTurn settings entry row) cell rows)) := by
  have linksBefore : ∀ other ∈ workbook.settledBefore settings entry,
      Column.isLink settings.delimiters other.key = true := fun other before =>
    isLink_of_mem_entries_firstPass (mem_settledBefore before).1
  have linksBehind : ∀ other ∈ workbook.settledBehind settings entry,
      Column.isLink settings.delimiters other.key = true := fun other behind =>
    isLink_of_mem_entries_firstPass (mem_settledBehind behind)
  have bounded : Fields.LinkKeysAmong settings.delimiters
      (Entries.keys row ++ Fields.roots settings.delimiters row)
      ((workbook.storeInTurn settings entry).applyColumn settings
        (workbook.rowInTurn settings entry row) entry.key) :=
    (Store.linkKeysAmong_settledRow linksBefore
      (Store.linkKeysAmong_applyColumns row)).applyColumn_link
        (Column.isLink_eq_true_iff.mpr ⟨link, read⟩)
  rw [resolvedRow_eq_settledRow waits, Store.get?_settledRow_of_apart linksBehind bounded,
    Store.applyColumn_of_link read stored, Link.get?_embed found, if_pos rfl]
  intro later behind own
  exact ⟨Column.ne_of_isLink (linksBehind later behind) (Column.ofKey_field read),
    last later behind own⟩

end InTurn

end Workbook

end Tabula

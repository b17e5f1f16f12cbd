import Tabula.Proofs.Row.Roles
import Tabula.Resolution

/-!
# What the columns do to a row

One column reads three things off its key: the fault it raises, the change it makes to
the record, and whether it has to wait. None of them depends on the other columns of the
row, although the columns work on a record that changes under them: every key of the row
is still there when its turn comes first. So a row fails with the fault of its first
faulty key, and otherwise it is the fold of the changes, and the keys that wait are
exactly those whose links lead to a table without rows.
-/

namespace Tabula

/-- The fault that a key raises in a table of a workbook with the given table names. -/
def Column.fault? (d : Delimiters) (known : List String) (table key : String) : Option Fault :=
  match Column.ofKey d key with
  | .error fault => some (fault.inTable table key)
  | .ok (.link found) =>
      if found.target ∈ known then none else some (.unknownTarget table key found.target)
  | .ok _ => none

/-- A key raises no fault when it has a meaning and, as a link, a table to lead to. -/
theorem Column.fault?_eq_none_iff {d : Delimiters} {known : List String} {table key : String} :
    fault? d known table key = none ↔
      ∃ column, ofKey d key = .ok column ∧
        ∀ found, column = .link found → found.target ∈ known := by
  unfold fault?
  cases ofKey d key with
  | error fault => simp
  | ok column =>
      cases column with
      | plain => simp
      | path segments => simp
      | link found => simp

theorem Column.mem_of_fault?_eq_none {d : Delimiters} {known : List String} {table key : String}
    {link : Link} (faultless : fault? d known table key = none)
    (read : ofKey d key = .ok (.link link)) : link.target ∈ known := by
  obtain ⟨column, meaning, target⟩ := fault?_eq_none_iff.mp faultless
  rw [read] at meaning
  cases meaning
  exact target link rfl

/-- A record in which the cell of a link column gives way to the embedded rows. Without
the cell nothing changes. -/
def Link.embed (settings : Settings) (link : Link) (targetRows : List Value) (record : Fields)
    (key : String) : Fields :=
  match Entries.get? record key with
  | none => record
  | some cell =>
      Entries.put (Entries.erase record key) link.field
        (.arr (link.linkedRows settings record cell targetRows))

theorem Link.get?_embed {settings : Settings} {link : Link} {targetRows : List Value}
    {record : Fields} {key : String} {cell : Value} (found : Entries.get? record key = some cell)
    (name : String) :
    Entries.get? (link.embed settings targetRows record key) name =
      if link.field = name then some (.arr (link.linkedRows settings record cell targetRows))
      else if key = name then none else Entries.get? record name := by
  rw [embed, found, Entries.get?_put, Entries.get?_erase]

namespace Store

/-- Whether a key is a link into a table without rows. -/
def postpones (settings : Settings) (store : Store) (key : String) : Bool :=
  match Column.ofKey settings.delimiters key with
  | .ok (.link found) => !store.isAvailable found.target
  | _ => false

/-- The change that one column makes to a record, links into tables without rows left
alone. -/
def applyColumn (settings : Settings) (store : Store) (record : Fields) (key : String) :
    Fields :=
  match Column.ofKey settings.delimiters key with
  | .ok (.path segments) => Fields.unfold record key segments
  | .ok (.link found) =>
      match store.rows? found.target with
      | some targetRows => found.embed settings targetRows record key
      | none => record
  | _ => record

/-- The changes that all columns of a row make to it, in column order. -/
def applyColumns (settings : Settings) (store : Store) (row : Fields) : Fields :=
  (Entries.keys row).foldl (store.applyColumn settings) row

/-- The columns of a row that have to wait, in column order. -/
def postponed (settings : Settings) (store : Store) (table : String) (row : Fields) :
    List Pending :=
  ((Entries.keys row).filter (store.postpones settings)).map (Pending.mk table)

section ApplyColumn

variable {settings : Settings} {store : Store} {record : Fields} {key : String}

theorem postpones_eq_true_iff :
    store.postpones settings key = true ↔
      ∃ link, Column.ofKey settings.delimiters key = .ok (.link link) ∧
        store.rows? link.target = none := by
  unfold postpones
  cases Column.ofKey settings.delimiters key with
  | error fault => simp
  | ok column =>
      cases column with
      | plain => simp
      | path segments => simp
      | link link => simp [isAvailable]

theorem exists_rows?_of_postpones_eq_false {link : Link}
    (read : Column.ofKey settings.delimiters key = .ok (.link link))
    (ready : store.postpones settings key = false) :
    ∃ targetRows, store.rows? link.target = some targetRows := by
  cases stored : store.rows? link.target with
  | none =>
      rw [postpones_eq_true_iff.mpr ⟨link, read, stored⟩] at ready
      cases ready
  | some targetRows => exact ⟨targetRows, rfl⟩

theorem applyColumn_of_absent (absent : Entries.get? record key = none) :
    store.applyColumn settings record key = record := by
  unfold applyColumn
  split
  · exact Fields.unfold_of_get?_eq_none absent _
  · split
    · rw [Link.embed, absent]
    · rfl
  · rfl

theorem applyColumn_of_path {segments : List String}
    (read : Column.ofKey settings.delimiters key = .ok (.path segments)) :
    store.applyColumn settings record key = Fields.unfold record key segments := by
  rw [applyColumn, read]

theorem applyColumn_of_link {link : Link} {targetRows : List Value}
    (read : Column.ofKey settings.delimiters key = .ok (.link link))
    (stored : store.rows? link.target = some targetRows) :
    store.applyColumn settings record key = link.embed settings targetRows record key := by
  rw [applyColumn, read]
  dsimp only
  rw [stored]

theorem applyColumn_of_createdBy?_eq_none
    (nothing : Column.createdBy? settings.delimiters key = none) :
    store.applyColumn settings record key = record := by
  cases read : Column.ofKey settings.delimiters key with
  | error fault => rw [applyColumn, read]
  | ok column =>
      obtain rfl := Column.eq_plain_of_createdBy?_eq_none read nothing
      rw [applyColumn, read]

theorem applyColumn_of_postpones (waits : store.postpones settings key = true) :
    store.applyColumn settings record key = record := by
  obtain ⟨link, read, noRows⟩ := postpones_eq_true_iff.mp waits
  rw [applyColumn, read]
  dsimp only
  rw [noRows]

/-- A column that does not wait takes its key out of the record and sets the field that it
creates. -/
theorem exists_applyColumn_eq_put {name : String}
    (creates : Column.createdBy? settings.delimiters key = some name)
    (ready : store.postpones settings key = false) (present : key ∈ Entries.keys record) :
    ∃ value, store.applyColumn settings record key =
      Entries.put (Entries.erase record key) name value := by
  obtain ⟨cell, found⟩ := Entries.exists_get?_eq_some present
  obtain ⟨column, read, made⟩ := Column.createdBy?_eq_some_iff.mp creates
  cases column with
  | plain => cases made
  | path segments =>
      cases segments with
      | nil => cases made
      | cons root rest =>
          cases made
          rw [applyColumn_of_path read, Fields.unfold_cons_of_get?_eq_some found]
          exact ⟨_, rfl⟩
  | link link =>
      cases made
      obtain ⟨targetRows, stored⟩ := exists_rows?_of_postpones_eq_false read ready
      rw [applyColumn_of_link read stored, Link.embed, found]
      exact ⟨_, rfl⟩

/-- A column leaves a record as it is, or takes its key out and sets the field that it
creates. -/
theorem applyColumn_eq_or (settings : Settings) (store : Store) (record : Fields)
    (key : String) :
    store.applyColumn settings record key = record ∨
      ∃ name value, Column.createdBy? settings.delimiters key = some name ∧
        store.applyColumn settings record key =
          Entries.put (Entries.erase record key) name value := by
  by_cases present : key ∈ Entries.keys record
  · cases creates : Column.createdBy? settings.delimiters key with
    | none => exact Or.inl (applyColumn_of_createdBy?_eq_none creates)
    | some name =>
        cases ready : store.postpones settings key with
        | true => exact Or.inl (applyColumn_of_postpones ready)
        | false =>
            obtain ⟨value, equal⟩ := exists_applyColumn_eq_put creates ready present
            exact Or.inr ⟨name, value, rfl, equal⟩
  · exact Or.inl (applyColumn_of_absent (Entries.get?_eq_none_iff.mpr present))

/-- No column takes another key out of the record. -/
theorem mem_keys_applyColumn {name : String} (differ : name ≠ key)
    (present : name ∈ Entries.keys record) :
    name ∈ Entries.keys (store.applyColumn settings record key) := by
  rcases applyColumn_eq_or settings store record key with same | ⟨created, value, _, changed⟩
  · rw [same]
    exact present
  · rw [changed, Entries.mem_keys_put, Entries.mem_keys_erase]
    exact Or.inr ⟨differ, present⟩

theorem distinct_applyColumn (distinct : Entries.Distinct record) :
    Entries.Distinct (store.applyColumn settings record key) := by
  rcases applyColumn_eq_or settings store record key with same | ⟨created, value, _, changed⟩
  · rw [same]
    exact distinct
  · rw [changed]
    exact Entries.distinct_put (Entries.distinct_erase distinct key) created value

end ApplyColumn

end Store

/-! ## Rows in the first pass -/

/-- The fault of the first faulty key of a row. -/
def Fields.fault? (d : Delimiters) (known : List String) (table : String) (row : Fields) :
    Option Fault :=
  (Entries.keys row).findSome? (Column.fault? d known table)

namespace Progress

variable {settings : Settings} {known : List String} {store : Store} {table : String}
  {record : Fields} {backlog : Backlog} {key : String}

theorem resolveColumn_of_absent (absent : Entries.get? record key = none) :
    resolveColumn settings known store table (record, backlog) key = .ok (record, backlog) := by
  simp [resolveColumn, absent]

theorem resolveColumn_of_present (present : key ∈ Entries.keys record) :
    resolveColumn settings known store table (record, backlog) key =
      okUnless (Column.fault? settings.delimiters known table key)
        (store.applyColumn settings record key,
          if store.postpones settings key then backlog.push ⟨table, key⟩ else backlog) := by
  obtain ⟨cell, found⟩ := Entries.exists_get?_eq_some present
  unfold resolveColumn Column.fault? Store.applyColumn
  simp only [found, Option.isNone_some, Bool.false_eq_true, if_false]
  cases read : Column.ofKey settings.delimiters key with
  | error fault => rfl
  | ok column =>
      cases column with
      | plain => simp [Store.postpones, read]
      | path segments => simp [Store.postpones, read]
      | link link =>
          dsimp only
          unfold Link.resolveOrPostpone
          by_cases target : link.target ∈ known
          · rw [if_pos target]
            cases stored : store.rows? link.target with
            | none =>
                rw [Link.resolve_of_rows?_eq_none target stored,
                  if_pos (Store.postpones_eq_true_iff.mpr ⟨link, read, stored⟩)]
                rfl
            | some targetRows =>
                have ready : store.postpones settings key = false := by
                  simp [Store.postpones, read, Store.isAvailable, stored]
                rw [Link.resolve_of_present target stored found, ready]
                simp only [Link.embed, found]
                rfl
          · rw [if_neg target, Link.resolve_of_not_mem target]
            rfl

/-- A column can be run: its key is still in the record, or it has been run before and
left neither a fault nor anything to put on the backlog. -/
def Runnable (settings : Settings) (known : List String) (store : Store) (table : String)
    (record : Fields) (backlog : Backlog) (key : String) : Prop :=
  key ∈ Entries.keys record ∨
    Column.fault? settings.delimiters known table key = none ∧
      (store.postpones settings key = true → (⟨table, key⟩ : Pending) ∈ backlog.entries)

/-- Running one column leaves every other runnable column runnable. -/
theorem Runnable.step {other : String}
    (runnable : Runnable settings known store table record backlog other)
    (faultless : Column.fault? settings.delimiters known table key = none) :
    Runnable settings known store table (store.applyColumn settings record key)
      (if store.postpones settings key then backlog.push ⟨table, key⟩ else backlog) other := by
  have kept : ∀ entry ∈ backlog.entries, entry ∈
      (if store.postpones settings key then backlog.push ⟨table, key⟩ else backlog).entries := by
    intro entry waits
    split
    · exact Backlog.mem_entries_push.mpr (Or.inr waits)
    · exact waits
  by_cases same : other = key
  · subst same
    right
    constructor
    · exact faultless
    · intro waits
      rw [if_pos waits]
      exact Backlog.mem_entries_push.mpr (Or.inl rfl)
  · rcases runnable with present | ⟨otherFaultless, waiting⟩
    · exact Or.inl (Store.mem_keys_applyColumn same present)
    · exact Or.inr ⟨otherFaultless, fun waits => kept _ (waiting waits)⟩

/-- Runnable columns fail with the first fault among them, and otherwise make their
changes one after another. -/
theorem foldlM_resolveColumn {columns : List String}
    (runnable : ∀ key ∈ columns, Runnable settings known store table record backlog key) :
    columns.foldlM (resolveColumn settings known store table) (record, backlog) =
      okUnless (columns.findSome? (Column.fault? settings.delimiters known table))
        (columns.foldl (store.applyColumn settings) record,
          backlog.pushAll
            ((columns.filter (store.postpones settings)).map (Pending.mk table))) := by
  induction columns generalizing record backlog with
  | nil => rfl
  | cons key rest ih =>
      rw [List.foldlM_cons, List.findSome?_cons, List.foldl_cons, List.filter_cons]
      have restRunnable : ∀ other ∈ rest,
          Runnable settings known store table record backlog other :=
        fun other member => runnable other (List.mem_cons_of_mem key member)
      by_cases present : key ∈ Entries.keys record
      · rw [resolveColumn_of_present present]
        cases fault : Column.fault? settings.delimiters known table key with
        | some fault => rfl
        | none =>
            have stepped := ih (fun other member => (restRunnable other member).step fault)
            apply stepped.trans
            split <;> rfl
      · have absent := Entries.get?_eq_none_iff.mpr present
        rw [resolveColumn_of_absent absent, Store.applyColumn_of_absent absent]
        rcases runnable key List.mem_cons_self with impossible | ⟨faultless, waiting⟩
        · exact absurd impossible present
        · rw [faultless]
          apply (ih restRunnable).trans
          by_cases waits : store.postpones settings key = true
          · rw [if_pos waits, List.map_cons, Backlog.pushAll, Backlog.pushAll, List.foldl_cons,
              Backlog.push_of_mem (waiting waits)]
          · rw [if_neg waits]

/-- A row fails with the fault of its first faulty key. Otherwise its columns change it in
order, and those that have to wait go to the backlog. -/
theorem resolveRow_eq (row : Fields) :
    resolveRow settings known store table backlog row =
      okUnless (Fields.fault? settings.delimiters known table row)
        (store.applyColumns settings row,
          backlog.pushAll (store.postponed settings table row)) :=
  foldlM_resolveColumn fun _ member => Or.inl member

end Progress

end Tabula

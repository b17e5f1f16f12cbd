import Mathlib.Data.List.Basic
import Tabula.Proofs.Run.FirstPass

/-!
# Links that lead forward

A link leads forward when its target stands at or behind the table of the link. The
backlog after the first pass is the list of these links, column by column, each pair of
a table and a key kept where it occurs first.
-/

namespace Tabula

/-- Whether a key of the table `table` links to a table of the workbook that does not
stand before it. -/
def Column.isForward (d : Delimiters) (names : List String) (table key : String) : Bool :=
  match Column.of? d key with
  | some (.link found) => found.target ∈ names ∧ names.idxOf table ≤ names.idxOf found.target
  | _ => false

/-- The links of a table that lead forward, in row and column order. -/
def Table.forwardLinks (d : Delimiters) (names : List String) (table : Table) :
    List Pending :=
  table.rows.flatMap fun row =>
    ((Entries.keys row).filter (Column.isForward d names table.name)).map
      (Pending.mk table.name)

/-- The links of a workbook that lead forward, in table, row and column order. -/
def Workbook.forwardLinks (settings : Settings) (workbook : Workbook) : List Pending :=
  workbook.tables.flatMap (Table.forwardLinks settings.delimiters workbook.names)

theorem idxOf_le_idxOf_iff {before after : List String} {table target : String}
    (fresh : table ∉ before) :
    (before ++ table :: after).idxOf table ≤ (before ++ table :: after).idxOf target ↔
      target ∉ before := by
  rw [List.idxOf_append_of_notMem fresh, List.idxOf_cons_self]
  constructor
  · intro behind member
    rw [List.idxOf_append_of_mem member] at behind
    have inside := List.idxOf_lt_length_of_mem member
    omega
  · intro absent
    rw [List.idxOf_append_of_notMem absent]
    omega

namespace Store

variable {settings : Settings} {store : Store} {names before : List String}

/-- While exactly the tables `before` have rows, the faultless keys that wait are the
links that lead forward. -/
theorem postpones_eq_isForward {table key : String} {after : List String}
    (namesEq : names = before ++ table :: after) (fresh : table ∉ before)
    (stored : ∀ name, store.rows? name = none ↔ name ∉ before)
    (faultless : Column.fault? settings.delimiters names table key = none) :
    store.postpones settings key = Column.isForward settings.delimiters names table key := by
  rw [Bool.eq_iff_iff, postpones_eq_true_iff]
  unfold Column.isForward
  cases read : Column.ofKey settings.delimiters key with
  | error fault => simp [Column.of?, read, Except.toOption]
  | ok column =>
      rw [Column.of?_eq_some_iff.mpr read]
      cases column with
      | plain => simp
      | path segments => simp
      | link link =>
          have known := Column.mem_of_fault?_eq_none faultless read
          subst namesEq
          simp only [Except.ok.injEq, Column.link.injEq, exists_eq_left', stored, known, true_and,
            idxOf_le_idxOf_iff fresh, decide_eq_true_eq]

theorem postponedIn_eq_forwardLinks {table : Table} {after : List String}
    (namesEq : names = before ++ table.name :: after) (fresh : table.name ∉ before)
    (stored : ∀ name, store.rows? name = none ↔ name ∉ before)
    (faultless : table.fault? settings.delimiters names = none) :
    store.postponedIn settings table = table.forwardLinks settings.delimiters names := by
  unfold postponedIn Table.forwardLinks
  apply List.flatMap_congr
  intro row rowMem
  apply congrArg (List.map (Pending.mk table.name))
  apply List.filter_congr
  intro key keyMem
  have rowFaultless := List.findSome?_eq_none_iff.mp faultless row rowMem
  exact postpones_eq_isForward namesEq fresh stored
    (List.findSome?_eq_none_iff.mp rowFaultless key keyMem)

/-- The columns that wait while the tables behind `before` are stored are the links of these
tables that lead forward. -/
theorem postponedFrom_eq_flatMap {tables : List Table}
    (namesEq : names = before ++ tables.map Table.name) (unique : names.Nodup)
    (stored : ∀ name, store.rows? name = none ↔ name ∉ before)
    (faultless : tables.findSome? (Table.fault? settings.delimiters names) = none) :
    store.postponedFrom settings tables =
      tables.flatMap (Table.forwardLinks settings.delimiters names) := by
  induction tables generalizing store before with
  | nil => rfl
  | cons table rest ih =>
      have fresh : table.name ∉ before := by
        rw [namesEq] at unique
        intro early
        exact (List.nodup_append.mp unique).2.2 _ early _ List.mem_cons_self rfl
      have namesEq' : names = (before ++ [table.name]) ++ rest.map Table.name := by
        rw [namesEq]
        simp
      have stored' : ∀ name, (store.addTable settings table).rows? name = none ↔
          name ∉ before ++ [table.name] := by
        intro name
        rw [rows?_addTable, List.mem_append, List.mem_singleton, not_or]
        by_cases same : table.name = name
        · simp [same]
        · simp [same, Ne.symm same, stored]
      have faultless' := List.findSome?_eq_none_iff.mp faultless
      rw [postponedFrom, List.flatMap_cons, ih namesEq' stored'
        (List.findSome?_eq_none_iff.mpr fun other otherMem =>
          faultless' other (List.mem_cons_of_mem table otherMem))]
      rw [postponedIn_eq_forwardLinks namesEq fresh stored (faultless' table List.mem_cons_self)]

end Store

namespace Workbook

/-- After the first pass the links that lead forward wait, each pair of a table and a key
once. -/
theorem entries_firstPass_eq_forwardLinks {settings : Settings} {workbook : Workbook}
    (unique : workbook.names.Nodup) (faultless : workbook.keyFault? settings = none) :
    (workbook.firstPass settings).backlog.entries =
      (workbook.forwardLinks settings).eraseDups := by
  have nothingStored : ∀ name,
      ({ rowsField := settings.rowsField } : Store).rows? name = none ↔ name ∉ ([] : List String) :=
    fun name => by simp [Store.rows?, Store.document?]
  rw [entries_firstPass, Store.postponedFrom_eq_flatMap (List.nil_append _).symm unique
    nothingStored faultless]
  rfl

end Workbook

end Tabula

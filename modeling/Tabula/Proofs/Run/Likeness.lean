import Mathlib.Data.List.Basic
import Tabula.Proofs.Run.Outcome

/-!
# Stores that look alike

Two runs are compared by the stores that they come through. The stores may differ in one
table as long as a given view of its rows shows no difference, and a run that looks at this
table only through that view does the same in both: it changes rows in the same way, lets the
same columns wait, and leaves stores that look alike again.
-/

namespace Tabula

variable {β : Type} {settings : Settings} {name : String} {view : Option (List Value) → β}

/-- Two stores with the same documents, except that the document of the table `name` may
differ where a view of the table's rows does not show it. -/
structure Store.Alike (name : String) (view : Option (List Value) → β) (store other : Store) :
    Prop where
  rowsField : store.rowsField = other.rowsField
  outside : ∀ wanted, wanted ≠ name → store.document? wanted = other.document? wanted
  inside : view (store.rows? name) = view (other.rows? name)

/-- The view that shows nothing. -/
def Store.nothing : Option (List Value) → Unit :=
  fun _ => ()

/-- A key whose links, if they lead to the table `name`, make of two versions of its rows the
same whenever a view shows the same of both. -/
def Column.SeesThrough (settings : Settings) (name : String) (view : Option (List Value) → β)
    (key : String) : Prop :=
  ∀ link, ofKey settings.delimiters key = .ok (.link link) → link.target = name →
    ∀ rows other : Option (List Value), view rows = view other → ∀ record cell,
      rows.map (link.linkedRows settings record cell) =
        other.map (link.linkedRows settings record cell)

/-- A table all of whose keys see the table `name` through a view at most. -/
def Table.SeesThrough (settings : Settings) (name : String) (view : Option (List Value) → β)
    (table : Table) : Prop :=
  ∀ row ∈ table.rows, ∀ key ∈ Entries.keys row, Column.SeesThrough settings name view key

/-- No link of the table leads to the table `name`. -/
def Table.Avoids (settings : Settings) (name : String) (table : Table) : Prop :=
  ∀ row ∈ table.rows, ∀ link ∈ Fields.links settings.delimiters row, link.target ≠ name

instance (settings : Settings) (name : String) (table : Table) :
    Decidable (table.Avoids settings name) :=
  inferInstanceAs (Decidable (∀ row ∈ table.rows,
    ∀ link ∈ Fields.links settings.delimiters row, link.target ≠ name))

theorem Column.seesThrough_of_target_ne {key : String}
    (avoids : ∀ link, ofKey settings.delimiters key = .ok (.link link) → link.target ≠ name) :
    SeesThrough settings name view key :=
  fun link read target => absurd target (avoids link read)

theorem Table.Avoids.seesThrough {table : Table} (avoids : table.Avoids settings name) :
    table.SeesThrough settings name view := by
  intro row rowMem key keyMem
  apply Column.seesThrough_of_target_ne
  intro link read
  exact avoids row rowMem link (Fields.mem_links.mpr ⟨key, keyMem, read⟩)

namespace Store.Alike

variable {store other third : Store} {key : String} {table : Table} {entry : Pending}

theorem refl (name : String) (view : Option (List Value) → β) (store : Store) :
    Alike name view store store :=
  ⟨rfl, fun _ _ => rfl, rfl⟩

theorem symm (alike : Alike name view store other) : Alike name view other store :=
  ⟨alike.rowsField.symm, fun wanted differ => (alike.outside wanted differ).symm,
    alike.inside.symm⟩

theorem trans (first : Alike name view store other) (second : Alike name view other third) :
    Alike name view store third :=
  ⟨first.rowsField.trans second.rowsField,
    fun wanted differ => (first.outside wanted differ).trans (second.outside wanted differ),
    first.inside.trans second.inside⟩

/-- Without looking at the table itself, stores stay alike. -/
theorem forget (alike : Alike name view store other) : Alike name nothing store other :=
  ⟨alike.rowsField, alike.outside, rfl⟩

theorem rows?_eq (alike : Alike name view store other) {wanted : String}
    (differ : wanted ≠ name) : store.rows? wanted = other.rows? wanted := by
  rw [rows?, rows?, alike.outside wanted differ, alike.rowsField]

/-- What a link makes of the rows of its target is the same in both stores. -/
theorem linkedRows_eq (alike : Alike name view store other)
    (sees : Column.SeesThrough settings name view key) {link : Link}
    (read : Column.ofKey settings.delimiters key = .ok (.link link)) (record : Fields)
    (cell : Value) :
    (store.rows? link.target).map (link.linkedRows settings record cell) =
      (other.rows? link.target).map (link.linkedRows settings record cell) := by
  by_cases target : link.target = name
  · rw [target]
    exact sees link read target _ _ alike.inside record cell
  · rw [alike.rows?_eq target]

theorem applyColumn_eq (alike : Alike name view store other)
    (sees : Column.SeesThrough settings name view key) (record : Fields) :
    store.applyColumn settings record key = other.applyColumn settings record key := by
  cases found : Entries.get? record key with
  | none => rw [applyColumn_of_absent found, applyColumn_of_absent found]
  | some cell =>
      unfold applyColumn
      split
      · rfl
      · rename_i link read
        have same := alike.linkedRows_eq sees read record cell
        cases stored : store.rows? link.target with
        | none =>
            rw [stored, Option.map_none, eq_comm, Option.map_eq_none_iff] at same
            rw [same]
        | some rows =>
            rw [stored, Option.map_some, eq_comm, Option.map_eq_some_iff] at same
            obtain ⟨otherRows, otherStored, linked⟩ := same
            rw [otherStored]
            simp only [Link.embed, found, linked]
      · rfl

theorem postpones_eq (alike : Alike name view store other)
    (sees : Column.SeesThrough settings name view key) :
    store.postpones settings key = other.postpones settings key := by
  unfold postpones
  split
  · rename_i link read
    have same := congrArg Option.isSome (alike.linkedRows_eq sees read [] .null)
    rw [Option.isSome_map, Option.isSome_map] at same
    rw [isAvailable, isAvailable, same]
  · rfl

theorem applyColumns_eq (alike : Alike name view store other) {row : Fields}
    (sees : ∀ key ∈ Entries.keys row, Column.SeesThrough settings name view key) :
    store.applyColumns settings row = other.applyColumns settings row :=
  List.foldl_ext _ _ _ fun record key keyMem => alike.applyColumn_eq (sees key keyMem) record

theorem postponedIn_eq (alike : Alike name view store other)
    (sees : table.SeesThrough settings name view) :
    store.postponedIn settings table = other.postponedIn settings table := by
  apply List.flatMap_congr
  intro row rowMem
  apply congrArg (List.map (Pending.mk table.name))
  apply List.filter_congr
  exact fun key keyMem => alike.postpones_eq (sees row rowMem key keyMem)

/-! ### Steps that both runs make -/

theorem putDocument (alike : Alike name view store other) {wanted : String}
    (differ : wanted ≠ name) (document : Fields) :
    Alike name view (store.putDocument wanted document) (other.putDocument wanted document) := by
  constructor
  · exact alike.rowsField
  · intro searched apart
    rw [document?_putDocument, document?_putDocument, alike.outside searched apart]
  · rw [rows?_putDocument_of_ne store document differ,
      rows?_putDocument_of_ne other document differ]
    exact alike.inside

theorem putRows (alike : Alike name view store other) {wanted : String}
    (differ : wanted ≠ name) (rows : List Value) :
    Alike name view (store.putRows wanted rows) (other.putRows wanted rows) := by
  rw [Store.putRows, Store.putRows, alike.rowsField]
  exact alike.putDocument differ _

theorem updateRows (alike : Alike name view store other) {wanted : String}
    (differ : wanted ≠ name) (rows : List Value) :
    Alike name view (store.updateRows wanted rows) (other.updateRows wanted rows) := by
  unfold Store.updateRows
  rw [alike.outside wanted differ, alike.rowsField]
  split
  · exact alike.putDocument differ _
  · exact alike.putRows differ rows

theorem addTable (alike : Alike name view store other) (differ : table.name ≠ name)
    (sees : table.SeesThrough settings name view) :
    Alike name view (store.addTable settings table) (other.addTable settings table) := by
  have sameRows : (table.rows.map fun row => Value.obj (store.applyColumns settings row)) =
      table.rows.map fun row => .obj (other.applyColumns settings row) := by
    apply List.map_congr_left
    intro row rowMem
    rw [alike.applyColumns_eq (sees row rowMem)]
  rw [Store.addTable, Store.addTable, sameRows]
  exact alike.putRows differ _

theorem settleColumn (alike : Alike name view store other) (differ : entry.table ≠ name)
    (sees : Column.SeesThrough settings name view entry.key) :
    Alike name view (store.settleColumn settings entry) (other.settleColumn settings entry) := by
  have sameChange : (fun record => store.applyColumn settings record entry.key) =
      fun record => other.applyColumn settings record entry.key :=
    funext (alike.applyColumn_eq sees)
  unfold Store.settleColumn
  rw [alike.rows?_eq differ, sameChange]
  split
  · exact alike.updateRows differ _
  · exact alike

/-! ### Series of steps -/

/-- Storing tables keeps stores alike and lets the same columns wait. -/
theorem foldl_addTable (alike : Alike name view store other) {tables : List Table}
    (differ : ∀ table ∈ tables, table.name ≠ name)
    (sees : ∀ table ∈ tables, table.SeesThrough settings name view) :
    Alike name view (tables.foldl (Store.addTable settings) store)
        (tables.foldl (Store.addTable settings) other) ∧
      store.postponedFrom settings tables = other.postponedFrom settings tables := by
  induction tables generalizing store other with
  | nil => exact ⟨alike, rfl⟩
  | cons table rest ih =>
      rw [List.forall_mem_cons] at differ sees
      obtain ⟨restAlike, restWaits⟩ := ih (alike.addTable differ.1 sees.1) differ.2 sees.2
      exact ⟨restAlike, by
        rw [postponedFrom, postponedFrom, alike.postponedIn_eq sees.1, restWaits]⟩

theorem foldl_settleColumn (alike : Alike name view store other) {pending : List Pending}
    (differ : ∀ entry ∈ pending, entry.table ≠ name)
    (sees : ∀ entry ∈ pending, Column.SeesThrough settings name view entry.key) :
    Alike name view (pending.foldl (Store.settleColumn settings) store)
      (pending.foldl (Store.settleColumn settings) other) := by
  induction pending generalizing store other with
  | nil => exact alike
  | cons entry rest ih =>
      rw [List.forall_mem_cons] at differ sees
      exact ih (alike.settleColumn differ.1 sees.1) differ.2 sees.2

end Store.Alike

namespace Store

variable {store other : Store}

/-! ### Steps that touch the table alone -/

theorem alike_putDocument (store : Store) (name : String) (document : Fields) :
    Alike name nothing (store.putDocument name document) store :=
  ⟨rfl, fun wanted differ => by rw [document?_putDocument, if_neg (Ne.symm differ)], rfl⟩

theorem alike_updateRows (store : Store) (name : String) (rows : List Value) :
    Alike name nothing (store.updateRows name rows) store := by
  unfold updateRows
  split
  · exact alike_putDocument store name _
  · exact alike_putDocument store name _

theorem alike_foldl_addTable (settings : Settings) (store : Store) {tables : List Table}
    (own : ∀ table ∈ tables, table.name = name) :
    Alike name nothing (tables.foldl (addTable settings) store) store := by
  induction tables generalizing store with
  | nil => exact Alike.refl name nothing store
  | cons table rest ih =>
      rw [List.forall_mem_cons] at own
      obtain ⟨rfl, restOwn⟩ := own
      exact (ih _ restOwn).trans (alike_putDocument store table.name _)

theorem alike_settleColumn (settings : Settings) (store : Store) {entry : Pending}
    (own : entry.table = name) :
    Alike name nothing (store.settleColumn settings entry) store := by
  subst own
  unfold settleColumn
  split
  · exact alike_updateRows store entry.table _
  · exact Alike.refl entry.table nothing store

theorem alike_foldl_settleColumn (settings : Settings) (store : Store) {pending : List Pending}
    (own : ∀ entry ∈ pending, entry.table = name) :
    Alike name nothing (pending.foldl (settleColumn settings) store) store := by
  induction pending generalizing store with
  | nil => exact Alike.refl name nothing store
  | cons entry rest ih =>
      rw [List.forall_mem_cons] at own
      exact (ih _ own.2).trans (alike_settleColumn settings store own.1)

/-- The artifact of any other table is the same in both stores. -/
theorem Alike.artifact?_eq (alike : Alike name view store other) {wanted : String}
    (differ : wanted ≠ name) :
    store.artifact? settings wanted = other.artifact? settings wanted := by
  rw [artifact?, artifact?, alike.outside wanted differ, alike.rowsField]

end Store

end Tabula

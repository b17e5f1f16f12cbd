import Tabula.Proofs.Run.FirstPass

/-!
# Settling with every table stored

When every pending column is a link column and all the tables it concerns have rows,
settling makes in every row of its table the change that the column makes in the first
pass. Nothing fails and nothing is left over.
-/

namespace Tabula

/-- Changes the fields of an object. Other values stay as they are. -/
def Value.mapFields (change : Fields → Fields) : Value → Value
  | .obj fields => .obj (change fields)
  | value => value

namespace Store

/-- Makes the change of one pending column in every row of its table. -/
def settleColumn (settings : Settings) (store : Store) (entry : Pending) : Store :=
  match store.rows? entry.table with
  | some rows =>
      store.updateRows entry.table
        (rows.map (Value.mapFields fun record => store.applyColumn settings record entry.key))
  | none => store

/-- A pending column whose links can be resolved: its own table and its target have rows. -/
structure Settles (settings : Settings) (known : List String) (store : Store)
    (entry : Pending) : Prop where
  isLink : ∃ link, Column.ofKey settings.delimiters entry.key = .ok (.link link) ∧
    link.target ∈ known ∧ ∃ targetRows, store.rows? link.target = some targetRows
  hasRows : ∃ rows, store.rows? entry.table = some rows

/-- A record as a series of pending columns leaves it, when it is a row of the table
`table`. -/
def settledRow (settings : Settings) (table : String) :
    List Pending → Store → Fields → Fields
  | [], _, record => record
  | entry :: rest, store, record =>
      settledRow settings table rest (store.settleColumn settings entry)
        (if entry.table = table then store.applyColumn settings record entry.key else record)

section SettleColumn

variable {settings : Settings} {known : List String} {store : Store} {entry : Pending}

theorem rows?_settleColumn (name : String) :
    (store.settleColumn settings entry).rows? name =
      if entry.table = name then
        (store.rows? name).map (List.map
          (Value.mapFields fun record => store.applyColumn settings record entry.key))
      else store.rows? name := by
  unfold settleColumn
  by_cases same : entry.table = name
  · subst same
    cases stored : store.rows? entry.table with
    | none => simp [stored]
    | some rows => simp [rows?_updateRows]
  · rw [if_neg same]
    cases stored : store.rows? entry.table with
    | none => rfl
    | some rows =>
        dsimp only
        rw [rows?_updateRows, if_neg same]

theorem exists_rows?_settleColumn {name : String} {rows : List Value}
    (stored : store.rows? name = some rows) :
    ∃ settled, (store.settleColumn settings entry).rows? name = some settled := by
  rw [rows?_settleColumn]
  split
  · rw [stored]
    exact ⟨_, rfl⟩
  · exact ⟨rows, stored⟩

@[simp]
theorem rowsField_settleColumn :
    (store.settleColumn settings entry).rowsField = store.rowsField := by
  unfold settleColumn
  split
  · exact rowsField_updateRows _ _ _
  · rfl

/-- Settling one column leaves every other column ready to be settled. -/
theorem Settles.step {other : Pending} (ready : Settles settings known store other) :
    Settles settings known (store.settleColumn settings entry) other := by
  obtain ⟨⟨link, read, target, targetRows, stored⟩, rows, hasRows⟩ := ready
  exact ⟨⟨link, read, target, exists_rows?_settleColumn stored⟩, exists_rows?_settleColumn hasRows⟩

theorem Settles.postpones_eq_false (ready : Settles settings known store entry) :
    store.postpones settings entry.key = false := by
  obtain ⟨link, read, _, targetRows, stored⟩ := ready.isLink
  rw [← Bool.not_eq_true, postpones_eq_true_iff]
  rintro ⟨other, otherRead, noRows⟩
  rw [read] at otherRead
  cases otherRead
  rw [stored] at noRows
  cases noRows

end SettleColumn

/-- The rows of a table after settling are its rows, each as the pending columns of the
table leave it. -/
theorem rows?_foldl_settleColumn {settings : Settings} {store : Store} {pending : List Pending}
    {table : String} {records : List Fields}
    (stored : store.rows? table = some (records.map .obj)) :
    (pending.foldl (settleColumn settings) store).rows? table =
      some (records.map fun record => .obj (settledRow settings table pending store record)) := by
  induction pending generalizing store records with
  | nil => exact stored
  | cons entry rest ih =>
      rw [List.foldl_cons]
      have settled : (store.settleColumn settings entry).rows? table =
          some ((records.map fun record =>
            if entry.table = table then store.applyColumn settings record entry.key
            else record).map .obj) := by
        rw [rows?_settleColumn, stored]
        by_cases same : entry.table = table
        · simp [same, Value.mapFields]
        · simp [same]
      rw [ih settled, List.map_map]
      rfl

end Store

namespace Backlog

variable {settings : Settings} {known : List String} {store : Store} {entry : Pending}

theorem settleRow_eq {link : Link} {targetRows : List Value}
    (read : Column.ofKey settings.delimiters entry.key = .ok (.link link))
    (target : link.target ∈ known) (stored : store.rows? link.target = some targetRows)
    (postponed : Bool) (row : Value) :
    settleRow settings known store entry link postponed row =
      .ok (row.mapFields fun record => store.applyColumn settings record entry.key,
        postponed) := by
  cases row with
  | obj fields =>
      unfold settleRow Value.mapFields
      dsimp only
      cases found : Entries.get? fields entry.key with
      | none =>
          rw [Store.applyColumn_of_absent found]
          rfl
      | some cell =>
          rw [Link.resolve_of_present target stored found, Store.applyColumn_of_link read stored,
            Link.embed, found]
          simp [Except.map]
  | null => rfl
  | bool value => rfl
  | num value => rfl
  | str text => rfl
  | arr items => rfl

theorem settleEntry_eq (ready : Store.Settles settings known store entry) :
    settleEntry settings known store entry =
      .ok (.settled, store.settleColumn settings entry) := by
  obtain ⟨⟨link, read, target, targetRows, stored⟩, rows, hasRows⟩ := ready
  unfold settleEntry Store.settleColumn
  rw [read, hasRows]
  dsimp only
  rw [mapCarry_eq_map (settleRow_eq read target stored false)]
  rfl

/-- A backlog of columns that can be settled is settled without a fault and without a
rest. -/
theorem settle_eq {pending : List Pending}
    (ready : ∀ entry ∈ pending, Store.Settles settings known store entry) :
    settle settings known pending store =
      (pending.foldl (Store.settleColumn settings) store, .ok { settled := pending }) := by
  induction pending generalizing store with
  | nil => rfl
  | cons entry rest ih =>
      have restReady : ∀ other ∈ rest,
          Store.Settles settings known (store.settleColumn settings entry) other :=
        fun other member => (ready other (List.mem_cons_of_mem entry member)).step
      rw [settle, settleEntry_eq (ready entry List.mem_cons_self)]
      dsimp only
      rw [ih restReady]
      rfl

end Backlog

end Tabula

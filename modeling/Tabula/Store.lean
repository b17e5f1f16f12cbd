import Tabula.Value

/-!
# Stored documents

The documents of the tables resolved so far. A document is an object; its rows are the
array under the store's rows field. A table counts as available once it has rows.
-/

namespace Tabula

/-- Documents by table name, and the field that holds the rows of each. -/
structure Store where
  rowsField : String
  documents : Entries String Fields := []
deriving DecidableEq

namespace Store

/-- The document of a table. -/
def document? (store : Store) (table : String) : Option Fields :=
  Entries.get? store.documents table

/-- The rows of a table, when its document has an array of them. -/
def rows? (store : Store) (table : String) : Option (List Value) :=
  match store.document? table with
  | none => none
  | some document => (Entries.get? document store.rowsField).bind Value.items?

/-- Whether a table has rows to link to. -/
def isAvailable (store : Store) (table : String) : Bool :=
  (store.rows? table).isSome

/-- Makes `document` the document of a table. -/
def putDocument (store : Store) (table : String) (document : Fields) : Store :=
  { store with documents := Entries.put store.documents table document }

/-- Makes a document of rows alone the document of a table. -/
def putRows (store : Store) (table : String) (rows : List Value) : Store :=
  store.putDocument table [(store.rowsField, .arr rows)]

/-- Replaces the rows inside the document of a table and keeps its other fields. -/
def updateRows (store : Store) (table : String) (rows : List Value) : Store :=
  match store.document? table with
  | some document => store.putDocument table (Entries.put document store.rowsField (.arr rows))
  | none => store.putRows table rows

/-- The number of documents. -/
def size (store : Store) : Nat :=
  store.documents.length

theorem document?_putDocument (store : Store) (table wanted : String) (document : Fields) :
    (store.putDocument table document).document? wanted =
      if table = wanted then some document else store.document? wanted :=
  Entries.get?_put store.documents table wanted document

theorem rows?_putRows (store : Store) (table wanted : String) (rows : List Value) :
    (store.putRows table rows).rows? wanted =
      if table = wanted then some rows else store.rows? wanted := by
  rw [rows?, putRows, document?_putDocument]
  by_cases same : table = wanted
  · simp [same, putDocument, Entries.get?_cons, Value.items?]
  · simp [same, rows?, putDocument]

theorem rows?_updateRows (store : Store) (table wanted : String) (rows : List Value) :
    (store.updateRows table rows).rows? wanted =
      if table = wanted then some rows else store.rows? wanted := by
  unfold updateRows
  cases stored : store.document? table with
  | none => exact rows?_putRows store table wanted rows
  | some document =>
      dsimp only
      rw [rows?, document?_putDocument]
      by_cases same : table = wanted
      · simp [same, putDocument, Entries.get?_put, Value.items?]
      · simp [same, rows?, putDocument]

theorem rows?_putDocument_of_ne (store : Store) {table wanted : String} (document : Fields)
    (differ : table ≠ wanted) :
    (store.putDocument table document).rows? wanted = store.rows? wanted := by
  rw [rows?, document?_putDocument, if_neg differ]
  rfl

@[simp]
theorem rowsField_putRows (store : Store) (table : String) (rows : List Value) :
    (store.putRows table rows).rowsField = store.rowsField := rfl

@[simp]
theorem rowsField_updateRows (store : Store) (table : String) (rows : List Value) :
    (store.updateRows table rows).rowsField = store.rowsField := by
  unfold updateRows
  split <;> rfl

end Store

end Tabula

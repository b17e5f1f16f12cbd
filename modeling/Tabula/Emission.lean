import Tabula.Key.TableName
import Tabula.Store

/-!
# Emitted artifacts

Which documents leave the store, and under which names. Internal and patch tables stay
behind. A table name with an option block is emitted under its base, and only if the
block names a field for the rows.
-/

namespace Tabula

/-- A named document that is emitted. -/
structure Artifact where
  name : String
  document : Value
deriving DecidableEq

/-- A document in which the field `old` is called `new`. If `new` was there already, the
two become one field, at the first position and with the last value. -/
def Fields.rename (document : Fields) (old new : String) : Fields :=
  Entries.collect (document.map fun field => (if field.1 = old then new else field.1, field.2))

namespace Store

/-- The artifact of one table, if it is emitted. -/
def artifact? (settings : Settings) (store : Store) (name : String) : Option Artifact :=
  if TableName.kind settings name ≠ .regular then
    none
  else
    match store.document? name, TableName.parts? settings.delimiters name with
    | none, _ => none
    | some document, none => some { name, document := .obj document }
    | some document, some parts =>
        parts.rowsField?.map fun rowsField =>
          { name := parts.base
            document := .obj (Fields.rename document store.rowsField rowsField) }

/-- An artifact is called by the base of its table's name, or by the whole name if there is no
option block in it. -/
theorem name_of_artifact?_eq_some {settings : Settings} {store : Store} {name : String}
    {artifact : Artifact} (emitted : store.artifact? settings name = some artifact) :
    artifact.name = (TableName.base? settings.delimiters name).getD name := by
  unfold artifact? at emitted
  split at emitted
  · cases emitted
  · split at emitted
    · cases emitted
    · rename_i bare
      cases emitted
      rw [TableName.base?, bare]
      rfl
    · rename_i parts hasBlock
      obtain ⟨field, _, rfl⟩ := Option.map_eq_some_iff.mp emitted
      rw [TableName.base?, hasBlock]
      rfl

/-- The artifacts of the tables `names`, in that order. -/
def artifacts (settings : Settings) (names : List String) (store : Store) : List Artifact :=
  names.filterMap (store.artifact? settings)

end Store

end Tabula

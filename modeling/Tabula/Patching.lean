import Tabula.Fault
import Tabula.Key.TableName
import Tabula.Store
import Tabula.Value.Overlay

/-!
# Patching documents

A patch table holds a single row of values for the document of its target. The target's
document is laid over that row, so the target keeps its own values and gains the fields
it does not have.
-/

namespace Tabula.Store

/-- Applies the table `name`, when it is a patch with a row and a stored target; `none`
when there is nothing to apply. The target is the first matching table. -/
def applyPatch? (settings : Settings) (names : List String) (store : Store) (name : String) :
    Except Fault (Option Store) :=
  if TableName.kind settings name ≠ .patch then
    .ok none
  else
    match store.rows? name with
    | none => .ok none
    | some [] => .ok none
    | some [row] =>
        match names.find? (TableName.isPatchTarget settings.delimiters name) with
        | none => .ok none
        | some target =>
            match store.document? target with
            | none => .ok none
            | some document =>
                match row.overlay (.obj document) with
                | .obj patched => .ok (some (store.putDocument target patched))
                | _ => .ok none
    | some rows => .error (.severalPatchRows name rows.length)

/-- Applies the patches among the tables `pending`, in order, and counts them. The store
keeps what was done before a fault. -/
def applyPatchesFrom (settings : Settings) (names : List String) (applied : Nat) :
    (pending : List String) → Store → Store × Except Fault Nat
  | [], store => (store, .ok applied)
  | name :: rest, store =>
      match store.applyPatch? settings names name with
      | .error fault => (store, .error fault)
      | .ok none => applyPatchesFrom settings names applied rest store
      | .ok (some patched) => applyPatchesFrom settings names (applied + 1) rest patched

/-- Applies every patch table of a workbook with the given table names. -/
def applyPatches (settings : Settings) (names : List String) (store : Store) :
    Store × Except Fault Nat :=
  applyPatchesFrom settings names 0 names store

end Tabula.Store

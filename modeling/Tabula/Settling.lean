import Tabula.Linking
import Tabula.Traversal

/-!
# Settling the backlog

Once all tables are stored, every pending column is tried once more, in the order of
the backlog. A column is resolved in all rows of its table against the store as it
stood before that column; then the rows are stored. Columns that still find no rows to
link to are reported, not queued again.
-/

namespace Tabula

/-- The columns of a backlog by what became of them, in backlog order. -/
structure Settlement where
  /-- Every cell of the column is linked. -/
  settled : List Pending := []
  /-- The table of the column, or the target of its links, has no rows. -/
  left : List Pending := []
deriving DecidableEq, Repr

/-- What became of one pending column. -/
inductive Fate where
  /-- The key is no link key. -/
  | ignored
  | settled
  | left
deriving DecidableEq, Repr

/-- Records what became of a column that stands before all others. -/
def Settlement.record (entry : Pending) (fate : Fate) (later : Settlement) : Settlement :=
  match fate with
  | .ignored => later
  | .settled => { later with settled := entry :: later.settled }
  | .left => { later with left := entry :: later.left }

namespace Backlog

/-- Resolves a link in one stored row, and notes whether any row so far had to be
postponed. Rows that are no objects or do not have the column stay as they are. -/
def settleRow (settings : Settings) (known : List String) (store : Store) (entry : Pending)
    (link : Link) (postponed : Bool) (row : Value) : Except Fault (Value × Bool) :=
  match row with
  | .obj fields =>
      if (Entries.get? fields entry.key).isSome then
        (link.resolve settings known store entry.table entry.key fields).map fun resolved =>
          (.obj resolved.2, postponed || resolved.1 = .postponed)
      else
        .ok (row, postponed)
  | _ => .ok (row, postponed)

/-- Tries one pending column again. -/
def settleEntry (settings : Settings) (known : List String) (store : Store) (entry : Pending) :
    Except Fault (Fate × Store) :=
  match Column.ofKey settings.delimiters entry.key with
  | .error fault => .error (fault.inTable entry.table entry.key)
  | .ok (.link link) =>
      match store.rows? entry.table with
      | none => .ok (.left, store)
      | some rows =>
          (mapCarry (settleRow settings known store entry link) false rows).map fun outcome =>
            (if outcome.2 then .left else .settled, store.updateRows entry.table outcome.1)
  | .ok _ => .ok (.ignored, store)

/-- Tries pending columns one after another. The store keeps what was done before a
fault. -/
def settle (settings : Settings) (known : List String) :
    List Pending → Store → Store × Except Fault Settlement
  | [], store => (store, .ok {})
  | entry :: rest, store =>
      match settleEntry settings known store entry with
      | .error fault => (store, .error fault)
      | .ok (fate, next) =>
          let (final, settlement) := settle settings known rest next
          (final, settlement.map (Settlement.record entry fate))

end Backlog

end Tabula

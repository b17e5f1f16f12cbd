/-!
# The backlog of postponed links

Links into tables that are not available yet wait in a backlog, each pair of a table
and a column key at most once, in the order in which they were met.
-/

namespace Tabula

/-- A column of links that waits for its target. -/
structure Pending where
  table : String
  key : String
deriving DecidableEq, Repr

/-- Pending columns in the order of their arrival, none of them twice. -/
structure Backlog where
  entries : List Pending
  nodup : entries.Nodup
deriving DecidableEq

namespace Backlog

/-- The backlog without entries. -/
def empty : Backlog :=
  ⟨[], List.nodup_nil⟩

/-- Whether an entry waits already. -/
def contains (backlog : Backlog) (entry : Pending) : Bool :=
  entry ∈ backlog.entries

/-- Adds an entry at the end, unless it waits already. -/
def push (backlog : Backlog) (entry : Pending) : Backlog :=
  if waits : entry ∈ backlog.entries then
    backlog
  else
    { entries := backlog.entries ++ [entry]
      nodup := List.nodup_append.mpr
        ⟨backlog.nodup, by simp, fun old oldMem new newMem equal => waits (by
          rw [List.mem_singleton] at newMem
          rwa [← newMem, ← equal])⟩ }

theorem entries_push (backlog : Backlog) (entry : Pending) :
    (backlog.push entry).entries =
      if entry ∈ backlog.entries then backlog.entries else backlog.entries ++ [entry] := by
  unfold push
  split <;> rfl

theorem mem_entries_push {backlog : Backlog} {entry other : Pending} :
    other ∈ (backlog.push entry).entries ↔ other = entry ∨ other ∈ backlog.entries := by
  rw [entries_push]
  by_cases waits : entry ∈ backlog.entries
  · rw [if_pos waits]
    constructor
    · exact Or.inr
    · rintro (rfl | old)
      · exact waits
      · exact old
  · rw [if_neg waits, List.mem_append, List.mem_singleton, or_comm]

theorem push_of_mem {backlog : Backlog} {entry : Pending} (waits : entry ∈ backlog.entries) :
    backlog.push entry = backlog := by
  rw [push, dif_pos waits]

/-- Adds entries one after another. -/
def pushAll (backlog : Backlog) (entries : List Pending) : Backlog :=
  entries.foldl push backlog

theorem pushAll_append (backlog : Backlog) (first second : List Pending) :
    backlog.pushAll (first ++ second) = (backlog.pushAll first).pushAll second :=
  List.foldl_append

/-- Entries that wait already are dropped, and of the others the first occurrences are kept. -/
theorem entries_pushAll (backlog : Backlog) (entries : List Pending) :
    (backlog.pushAll entries).entries =
      backlog.entries ++ (entries.removeAll backlog.entries).eraseDups := by
  induction entries generalizing backlog with
  | nil => simp [pushAll]
  | cons entry rest ih =>
      rw [pushAll, List.foldl_cons, ← pushAll, ih, List.cons_removeAll]
      by_cases waits : entry ∈ backlog.entries
      · rw [push_of_mem waits, if_neg (by simpa using waits)]
      · have dropBoth : rest.removeAll (backlog.entries ++ [entry]) =
            (rest.removeAll backlog.entries).filter (fun other => !other == entry) := by
          rw [List.removeAll, List.removeAll, List.filter_filter]
          apply List.filter_congr
          intro other _
          by_cases same : other = entry <;> simp [same]
        rw [entries_push, if_neg waits, if_pos (by simpa using waits), dropBoth,
          List.eraseDups_cons, List.append_assoc]
        rfl

theorem entries_pushAll_empty (entries : List Pending) :
    (empty.pushAll entries).entries = entries.eraseDups := by
  rw [entries_pushAll]
  simp [empty]

end Backlog

end Tabula

import Tabula.Value.CellText

/-!
# Headers and records

The first row of a sheet names its columns. An empty header cell is called `__EMPTY`, and
a name that is taken already gets the least number that makes it new. A record holds the
cells of one row under the names of their columns; absent cells and cells beyond the
header leave no trace.
-/

namespace Tabula.Sheet

/-- The name of a column whose header cell is empty. -/
def emptyName : String := "__EMPTY"

/-- The name that a header cell asks for. -/
def baseName (cell : Option Value) : String :=
  match cell with
  | none => emptyName
  | some value => if value.cellText = "" then emptyName else value.cellText

/-- A name with a number behind it. -/
def numbered (base : String) (n : Nat) : String :=
  base ++ "_" ++ naturalText n

/-- The first numbered name that is not taken, from `n` on and with at most `tries`
failures. -/
def firstFree (taken : List String) (base : String) : (tries n : Nat) → String
  | 0, n => numbered base n
  | tries + 1, n =>
      if numbered base n ∈ taken then firstFree taken base tries (n + 1) else numbered base n

/-- A name that is not taken: `base` itself, or `base` with the least number from one on.
There are at most as many failures as there are taken names. -/
def freshName (taken : List String) (base : String) : String :=
  if base ∈ taken then firstFree taken base taken.length 1 else base

/-- The column names of a header row, each one new among the names before it. -/
def headerNames (cells : List (Option Value)) : List String :=
  cells.foldl (fun taken cell => taken ++ [freshName taken (baseName cell)]) []

/-- The present cells of a row under their column names. -/
def cellsByName (header : List String) (cells : List (Option Value)) : List (String × Value) :=
  (header.zip cells).filterMap fun pair => pair.2.map fun value => (pair.1, value)

/-- The record of a row; `none` when no cell of it is present. -/
def record? (header : List String) (cells : List (Option Value)) : Option Fields :=
  match Entries.collect (cellsByName header cells) with
  | [] => none
  | fields => some fields

end Tabula.Sheet

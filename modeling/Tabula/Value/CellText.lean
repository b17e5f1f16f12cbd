import Tabula.Value

/-!
# Cell texts

The text of a value as rows are compared by it, as it replaces a placeholder, and
as it names a column.
-/

namespace Tabula.Value

mutual

/-- The text of a value. Null is empty, array items are joined by commas, and an
object has a fixed text. -/
def cellText : Value → String
  | null => ""
  | bool true => "true"
  | bool false => "false"
  | num number => number.cellText
  | str text => text
  | arr items => ",".intercalate (cellTexts items)
  | obj _ => "[object Object]"

/-- The texts of the items of an array. -/
def cellTexts : List Value → List String
  | [] => []
  | item :: rest => cellText item :: cellTexts rest

end

theorem cellTexts_eq_map (items : List Value) : cellTexts items = items.map cellText := by
  induction items with
  | nil => rfl
  | cons item rest ih => rw [cellTexts, ih, List.map_cons]

end Tabula.Value

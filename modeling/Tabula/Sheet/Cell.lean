import Tabula.Value

/-!
# Worksheet cells

A worksheet stores its cells as texts with a kind. Reading a cell checks numerals and
error codes, while a serial number that is no numeral stays the text it is. What is read
carries a value or nothing: cells that are empty, hold an empty text, an error, or a number
that is not finite carry nothing.
-/

namespace Tabula.Sheet

/-- A cell as a worksheet stores it. -/
inductive StoredCell where
  | text (content : String)
  | numeral (content : String)
  /-- A date or time by the numeral of its serial number, or as any other text. -/
  | serial (content : String)
  | bool (value : Bool)
  | error (code : String)
  /-- A date, time or duration written out. -/
  | timeText (content : String)
  | blank
deriving DecidableEq, Repr

/-- A cell that has been read. Numbers that are not finite are `none`. -/
inductive Cell where
  | empty
  | text (content : String)
  | bool (value : Bool)
  /-- A whole number that is stored as one. A worksheet stores all its numbers as numerals, so
  none is read from it. -/
  | integer (value : Int)
  | number (value : Option Double)
  | serial (value : Option Double)
  | timeText (content : String)
  | error
deriving DecidableEq

/-- The codes of error cells. -/
def errorCodes : List String :=
  ["#DIV/0!", "#N/A", "#NAME?", "#NULL!", "#NUM!", "#REF!", "#VALUE!"]

/-- The numerals of infinities and of no number at all, in lower case and without sign. -/
def specialNumerals : List String :=
  ["inf", "infinity", "nan"]

/-- Reads a numeral: `none` when it is malformed, `some none` when its number is not
finite. -/
def numeral? (content : String) : Option (Option Double) :=
  let text := content.toList
  match Decimal.ofChars? text with
  | some decimal => some decimal.toDouble?
  | none =>
      let magnitude := (Decimal.takeSign text).2.map Char.toLower
      if String.ofList magnitude ∈ specialNumerals then some none else none

namespace Cell

/-- Reads a stored cell; `none` when it is malformed. -/
def ofStored? : StoredCell → Option Cell
  | .text content => some (text content)
  | .numeral content => if content = "" then some empty else (numeral? content).map number
  | .serial content =>
      match numeral? content with
      | some value => some (serial value)
      | none => some (text content)
  | .bool value => some (bool value)
  | .error code => if code ∈ errorCodes then some error else none
  | .timeText content => some (timeText content)
  | .blank => some empty

/-- The value that a cell carries. -/
def value? : Cell → Option Value
  | empty => none
  | error => none
  | text content => if content = "" then none else some (.str content)
  | bool value => some (.bool value)
  | integer value => some (.num (.integer value))
  | number value => value.map fun finite => .num (Number.ofDouble finite)
  | serial value => value.map fun finite => .num (Number.ofDouble finite)
  | timeText content => some (.str content)

end Cell

end Tabula.Sheet

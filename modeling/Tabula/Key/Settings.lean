/-!
# Settings

The characters that give column keys and table names their meaning, the name under
which a document holds its rows, and the mark of hidden names.
-/

namespace Tabula

/-- The characters with a meaning in column keys, table names and link cells. -/
structure Delimiters where
  /-- Between the segments of a path key. -/
  path : Char := '.'
  /-- Between the field and the target table of a link key. -/
  link : Char := ':'
  /-- Between the tokens of a link cell. -/
  list : Char := ','
  /-- In front of each option of a link key. -/
  linkOption : Char := '$'
  /-- In front of each option of a table name. -/
  tableOption : Char := '$'
  /-- In front of the name of a patch table. -/
  patch : Char := '!'
deriving DecidableEq, Repr

/-- How a workbook is read and its documents are shaped. -/
structure Settings where
  delimiters : Delimiters := {}
  /-- The field of a document that holds the rows of its table. -/
  rowsField : String := "data"
  /-- The start of hidden field names and internal table names. -/
  hiddenMark : String := "__"
deriving DecidableEq, Repr

/-- An ASCII letter, an ASCII digit or an underscore. -/
def isWordChar (c : Char) : Bool :=
  c.isAlphanum || c = '_'

/-- Whether a name is the hidden mark followed by word characters only. -/
def Settings.isHidden (settings : Settings) (name : String) : Bool :=
  match settings.hiddenMark.toList.isPrefixOf? name.toList with
  | some rest => rest.all isWordChar
  | none => false

end Tabula

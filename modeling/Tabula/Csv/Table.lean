import Tabula.Csv.Splitting
import Tabula.Csv.Typing
import Tabula.Sheet.Header
import Tabula.Source.Fault
import Tabula.Traversal
import Tabula.Workbook

/-!
# Tables from delimited text

The first record of a delimited text is its header and every other one a row. Rows
without a value are skipped, but count towards the row limit; the limit is looked at
before the bytes of a record are.
-/

namespace Tabula.Csv

/-- How a delimited text is read. -/
structure Dialect where
  delimiter : Char := ','
  /-- Whether blanks around fields are dropped. -/
  trims : Bool := true
  /-- The greatest number of data records. -/
  maxRows : Nat := 1000000
deriving DecidableEq, Repr

/-- A record with its fields as texts; `none` for one that is not valid text. -/
abbrev Record :=
  Option (List String)

/-- The text of one field. -/
def fieldText (trims : Bool) (field : RawField) : Option String :=
  (String.fromUTF8? ⟨field.toArray⟩).map fun text => if trims then Text.trim text else text

/-- The fields of a record as texts. -/
def recordTexts (trims : Bool) (record : RawRecord) : Record :=
  record.mapM (fieldText trims)

/-- The records of a delimited text. -/
def records (dialect : Dialect) (bytes : List UInt8) : List Record :=
  (split dialect.delimiter.toUInt8 bytes).map (recordTexts dialect.trims)

/-- Reads the data record at an index into a row, if the record has a value. -/
def readRow (maxRows : Nat) (header : List String) (index : Nat) (record : Record) :
    Except Source.Fault (Option Fields × Nat) :=
  if maxRows ≤ index then
    .error (.tooManyRows maxRows (index + 1))
  else
    match record with
    | none => .error .csv
    | some fields => .ok (Sheet.record? header (fields.map typed), index + 1)

/-- The table of a list of records, the first of which is the header. -/
def tableOfRecords (name : String) (maxRows : Nat) : List Record → Except Source.Fault Table
  | [] => .ok { name, rows := [] }
  | none :: _ => .error .csv
  | some header :: rest =>
      let names := Sheet.headerNames (header.map typed)
      (mapCarry (readRow maxRows names) 0 rest).map fun outcome =>
        { name, rows := outcome.1.filterMap id }

/-- The table of a delimited text. -/
def table (name : String) (dialect : Dialect) (bytes : ByteArray) : Except Source.Fault Table :=
  tableOfRecords name dialect.maxRows (records dialect bytes.toList)

end Tabula.Csv

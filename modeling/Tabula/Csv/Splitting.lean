import Tabula.Text.Blank

/-!
# Splitting delimited text into records

The bytes of a delimited text as records of fields. A field that starts with a quote
runs to the closing quote, delimiters and line ends included, and a doubled quote inside
it stands for one; what follows a closing quote belongs to the field. A quote anywhere
else is an ordinary byte. Carriage returns and line feeds end records, and lines without
any byte are no records.
-/

namespace Tabula.Csv

/-- The bytes of a field. -/
abbrev RawField :=
  List UInt8

/-- The fields of a record as bytes. -/
abbrev RawRecord :=
  List RawField

/-- Where in a delimited text the next byte stands. -/
inductive Position where
  /-- Between two records. -/
  | betweenRecords
  /-- At the first byte of a field. -/
  | fieldStart
  /-- Inside a field, outside quotes. -/
  | inField
  /-- Between an opening quote and its closing one. -/
  | inQuotes
  /-- Behind a quote that closes the field or is the first of a doubled one. -/
  | behindQuote
deriving DecidableEq, Repr

/-- The bytes read so far, taken apart. Finished parts and the open field are held last
element first. -/
structure Splitter where
  position : Position := .betweenRecords
  field : RawField := []
  fields : List RawField := []
  records : List RawRecord := []
deriving DecidableEq, Repr

namespace Splitter

/-- The byte of the quote. -/
def quote : UInt8 := 0x22

/-- Whether a byte ends a record. -/
def isLineEnd (byte : UInt8) : Bool :=
  byte = 0x0a || byte = 0x0d

/-- Finishes the open field and starts another one. -/
def endField (s : Splitter) : Splitter :=
  { s with position := .fieldStart, field := [], fields := s.field.reverse :: s.fields }

/-- Finishes the open field and its record. -/
def endRecord (s : Splitter) : Splitter :=
  { position := .betweenRecords
    field := []
    fields := []
    records := (s.field.reverse :: s.fields).reverse :: s.records }

/-- Adds a byte to the open field. -/
def take (s : Splitter) (position : Position) (byte : UInt8) : Splitter :=
  { s with position, field := byte :: s.field }

/-- Reads a byte outside quotes that has no meaning as a quote. -/
def readPlain (delimiter : UInt8) (s : Splitter) (byte : UInt8) : Splitter :=
  if byte = delimiter then s.endField
  else if isLineEnd byte then s.endRecord
  else s.take .inField byte

/-- Reads the first byte of a field. -/
def readFirst (delimiter : UInt8) (s : Splitter) (byte : UInt8) : Splitter :=
  if byte = quote then { s with position := .inQuotes } else s.readPlain delimiter byte

/-- Reads one byte. -/
def read (delimiter : UInt8) (s : Splitter) (byte : UInt8) : Splitter :=
  match s.position with
  | .betweenRecords => if isLineEnd byte then s else s.readFirst delimiter byte
  | .fieldStart => s.readFirst delimiter byte
  | .inField => s.readPlain delimiter byte
  | .inQuotes =>
      if byte = quote then { s with position := .behindQuote } else s.take .inQuotes byte
  | .behindQuote =>
      if byte = quote then s.take .inQuotes byte else s.readPlain delimiter byte

/-- The records once all bytes are read. A record without a line end behind it is
finished, and so is a quoted field without a closing quote. -/
def finish (s : Splitter) : List RawRecord :=
  match s.position with
  | .betweenRecords => s.records.reverse
  | _ => s.endRecord.records.reverse

end Splitter

/-- Bytes without the byte order mark that may stand in front of them. -/
def dropByteOrderMark : List UInt8 → List UInt8
  | 0xef :: 0xbb :: 0xbf :: rest => rest
  | bytes => bytes

/-- The records of a delimited text. -/
def split (delimiter : UInt8) (bytes : List UInt8) : List RawRecord :=
  ((dropByteOrderMark bytes).foldl (Splitter.read delimiter) {}).finish

end Tabula.Csv

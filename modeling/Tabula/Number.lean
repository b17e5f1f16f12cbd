import Tabula.Number.Layout

/-!
# Numbers

Document numbers are integers of at most sixty-four bits or finite doubles. The two
are different values even where they are numerically equal: `1` and `1.0` print
differently in a document, and alike in a cell text.
-/

namespace Tabula

/-- A number of a document. -/
inductive Number where
  | integer (value : Int)
  | double (value : Double)
deriving DecidableEq

namespace Number

/-- Documents write doubles positionally from `0.00001` up to sixteen whole digits,
keep a fraction digit on whole ones, and break ties towards the even digit. -/
def documentLayout : Layout :=
  { positionalOrders := some (-5, 15), marksWhole := true, tie := .toEven }

/-- Cell texts never use an exponent and leave out the fraction of whole numbers;
ties go up. -/
def cellLayout : Layout :=
  { positionalOrders := none, marksWhole := false, tie := .up }

/-- The text of a number inside a document. -/
def documentText : Number → String
  | integer value => integerText value
  | double value => documentLayout.write value

/-- The text of a number as it is compared between cells. A whole double below
`10 ^ 15` reads like the integer it equals, so `1.0` matches the text `1`. -/
def cellText : Number → String
  | integer value => integerText value
  | double value =>
      match value.toInt? with
      | some whole =>
          if whole.natAbs < 1000000000000000 then integerText whole else cellLayout.write value
      | none => cellLayout.write value

/-- The number of a spreadsheet cell that holds a double: whole values of magnitude
below `2 ^ 53` become integers. -/
def ofDouble (value : Double) : Number :=
  match value.toInt? with
  | some whole => if whole.natAbs < 0x20000000000000 then integer whole else double value
  | none => double value

/-- Whether an integer fits a signed word of sixty-four bits. -/
def isSignedWord (value : Int) : Bool :=
  -0x8000000000000000 ≤ value && value < 0x8000000000000000

/-- Whether an integer fits an unsigned word of sixty-four bits. -/
def isUnsignedWord (value : Int) : Bool :=
  0 ≤ value && value < 0x10000000000000000

/-- Reads the numeral of a document. Integer numerals within sixty-four bits, signed
or unsigned, are integers; all other numerals are doubles, and so is a zero with a
minus sign. -/
def ofNumeral? (numeral : String) : Option Number :=
  let text := numeral.toList
  match integerOfChars? text with
  | some value =>
      if (isSignedWord value || isUnsignedWord value) && text != ['-', '0'] then
        some (integer value)
      else
        (Decimal.ofChars? text).bind fun decimal => decimal.toDouble?.map double
  | none => (Decimal.ofChars? text).bind fun decimal => decimal.toDouble?.map double

end Number

end Tabula

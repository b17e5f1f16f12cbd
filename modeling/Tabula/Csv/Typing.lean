import Tabula.Value

/-!
# Types of field texts

What a field text is as a value. An integer within a signed word and any other finite
decimal numeral become numbers, an empty text is no value, and all other texts stay
texts. A numeral has to start with a digit or a point behind its signs, and one beyond
the largest double is a text.
-/

namespace Tabula.Csv

/-- Whether a text starts with a digit or a point behind any number of signs. -/
def looksNumeric (text : List Char) : Bool :=
  match text.dropWhile fun c => c = '+' || c = '-' with
  | [] => false
  | c :: _ => c.isDigit || c = '.'

/-- The number of a finite decimal numeral. -/
def decimalNumber? (text : List Char) : Option Number :=
  if looksNumeric text then
    ((Decimal.ofChars? text).bind Decimal.toDouble?).map Number.ofDouble
  else
    none

/-- The number that a text denotes. -/
def number? (text : List Char) : Option Number :=
  match integerOfChars? text with
  | some value =>
      if Number.isSignedWord value then some (.integer value) else decimalNumber? text
  | none => decimalNumber? text

/-- The value of a field text, if it has one. -/
def typed (text : String) : Option Value :=
  if text = "" then
    none
  else
    match number? text.toList with
    | some number => some (.num number)
    | none => some (.str text)

end Tabula.Csv

import Tabula.Number.Double

/-!
# Decimal numerals

A decimal numeral is an optional sign, digits with at most one point among
them, and an optional exponent. It denotes the exact rational
`coefficient * 10 ^ exponent`; rounding to a double happens once, on that
rational.
-/

namespace Tabula

/-- The rational `coefficient * 10 ^ exponent`, with a sign of its own so that a
negative zero can be written. -/
structure Decimal where
  negative : Bool
  coefficient : Nat
  exponent : Int
deriving DecidableEq, Repr

/-- The number of decimal digits needed to write `n`; one for zero. -/
def decimalLength (n : Nat) : Nat :=
  (Nat.toDigits 10 n).length

namespace Decimal

/-- Removes one leading sign and reports whether it was a minus. -/
def takeSign : List Char → Bool × List Char
  | '-' :: rest => (true, rest)
  | '+' :: rest => (false, rest)
  | text => (false, text)

/-- The number written by a list of decimal digits. -/
def digitsValue (digits : List Char) : Nat :=
  digits.foldl (fun value digit => 10 * value + (digit.toNat - '0'.toNat)) 0

/-- The exponent part after a mantissa: nothing, or a letter `e`, an optional
sign and at least one digit. -/
def exponentPart? : List Char → Option Int
  | [] => some 0
  | letter :: rest =>
      let (negative, digits) := takeSign rest
      if (letter = 'e' ∨ letter = 'E') ∧ digits ≠ [] ∧ digits.all Char.isDigit then
        let magnitude : Int := digitsValue digits
        some (if negative then -magnitude else magnitude)
      else
        none

/-- Reads a decimal numeral that takes up the whole text. A mantissa needs one
digit, on either side of its point. -/
def ofChars? (text : List Char) : Option Decimal :=
  let (negative, body) := takeSign text
  let whole := body.takeWhile Char.isDigit
  let afterWhole := body.dropWhile Char.isDigit
  let (fraction, afterFraction) := match afterWhole with
    | '.' :: rest => (rest.takeWhile Char.isDigit, rest.dropWhile Char.isDigit)
    | _ => ([], afterWhole)
  if whole ++ fraction = [] then
    none
  else
    (exponentPart? afterFraction).map fun exponent =>
      ⟨negative, digitsValue (whole ++ fraction), exponent - fraction.length⟩

/-- The double nearest to a decimal; `none` beyond the largest double.

A decimal with `n` digits lies in `[10 ^ (n - 1 + exponent), 10 ^ (n + exponent))`,
so the powers of ten far outside the range of doubles are never computed. -/
def toDouble? (d : Decimal) : Option Double :=
  let top := d.exponent + decimalLength d.coefficient
  if d.coefficient = 0 ∨ top ≤ -324 then
    some (Double.zero d.negative)
  else if 310 ≤ top then
    none
  else
    match d.exponent with
    | .ofNat e => Double.ofRatio? d.negative (d.coefficient * Nat.pow 10 e) 1
    | .negSucc e => Double.ofRatio? d.negative d.coefficient (Nat.pow 10 (e + 1))

end Decimal

/-- Reads an integer that takes up the whole text: an optional sign and at least
one digit. -/
def integerOfChars? (text : List Char) : Option Int :=
  let (negative, digits) := Decimal.takeSign text
  if digits ≠ [] ∧ digits.all Char.isDigit then
    let magnitude : Int := Decimal.digitsValue digits
    some (if negative then -magnitude else magnitude)
  else
    none

/-- The text of a natural number in decimal. -/
def naturalText (n : Nat) : String :=
  String.ofList (Nat.toDigits 10 n)

/-- The text of an integer in decimal, with a minus sign below zero. -/
def integerText : Int → String
  | .ofNat n => naturalText n
  | .negSucc n => "-" ++ naturalText (n + 1)

end Tabula

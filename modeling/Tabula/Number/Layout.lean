import Tabula.Number.Shortest

/-!
# Number layouts

How significant digits are spread around a decimal point. A layout says for which
orders of magnitude a number is written positionally, whether a whole number keeps
a fraction digit, and which of two equally near decimals is taken.
-/

namespace Tabula

/-- The written form of doubles in one kind of text. -/
structure Layout where
  /-- Orders of magnitude written without an exponent; `none` for all of them. -/
  positionalOrders : Option (Int × Int)
  /-- Whether whole numbers end in a point and a zero. -/
  marksWhole : Bool
  tie : Tie
deriving DecidableEq, Repr

namespace Significant

/-- The digits around a decimal point, without an exponent. -/
def positional (s : Significant) (marksWhole : Bool) : List Char :=
  match s.order with
  | .negSucc gap => '0' :: '.' :: (List.replicate gap '0' ++ s.digits)
  | .ofNat order =>
      let whole := s.digits.take (order + 1)
      let fraction := s.digits.drop (order + 1)
      let padded := whole ++ List.replicate (order + 1 - whole.length) '0'
      if fraction = [] then
        if marksWhole then padded ++ ['.', '0'] else padded
      else
        padded ++ '.' :: fraction

/-- One digit before the point, and the order of magnitude as a signed exponent. -/
def scientific (s : Significant) : List Char :=
  let sign := if s.order < 0 then '-' else '+'
  let mantissa := match s.digits with
    | [] => ['0']
    | [digit] => [digit]
    | digit :: rest => digit :: '.' :: rest
  mantissa ++ 'e' :: sign :: Nat.toDigits 10 s.order.natAbs

end Significant

namespace Layout

/-- Whether a number of the given order of magnitude is written positionally. -/
def isPositional (layout : Layout) (order : Int) : Bool :=
  match layout.positionalOrders with
  | none => true
  | some (least, greatest) => least ≤ order && order ≤ greatest

/-- The text of a double: a minus sign if it is negative, then its shortest
digits. -/
def write (layout : Layout) (d : Double) : String :=
  let s := d.shortest layout.tie
  let magnitude :=
    if layout.isPositional s.order then s.positional layout.marksWhole else s.scientific
  String.ofList (if d.negative then '-' :: magnitude else magnitude)

end Layout

end Tabula

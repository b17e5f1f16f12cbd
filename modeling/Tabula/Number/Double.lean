/-!
# Finite binary doubles

A finite binary64 number is a sign and a whole number of units, the unit being
a power of two no smaller than `2 ^ -1074`. The significand of a number above
the subnormal range carries its leading bit, so every number other than zero has
one representation and equality of structures is equality of numbers.
-/

namespace Tabula

/-- A finite binary64 number of magnitude `significand * 2 ^ scale / 2 ^ 1074`. The bounds of
the significand are `2 ^ 53` and `2 ^ 52`. -/
structure Double where
  negative : Bool
  significand : Nat
  scale : Nat
  significand_lt : significand < 0x20000000000000
  scale_le : scale ≤ 2045
  leading_bit : significand < 0x10000000000000 → scale = 0
deriving DecidableEq

/-- The whole number nearest to `numerator / denominator`; a half goes to the
even neighbour. -/
def nearestEven (numerator denominator : Nat) : Nat :=
  let quotient := numerator / denominator
  let twice := 2 * (numerator % denominator)
  if twice < denominator then quotient
  else if denominator < twice then quotient + 1
  else quotient + quotient % 2

namespace Double

/-- How many of the smallest units, `2 ^ -1074` each, make one. -/
def unitsPerOne : Nat :=
  Nat.pow 2 1074

/-- The double with the given parts, when they are in range and in leading-bit
form. -/
def ofParts? (negative : Bool) (significand scale : Nat) : Option Double :=
  if inRange : significand < 0x20000000000000 ∧ scale ≤ 2045 ∧
      (significand < 0x10000000000000 → scale = 0) then
    some ⟨negative, significand, scale, inRange.1, inRange.2.1, inRange.2.2⟩
  else
    none

/-- Zero, with its sign. -/
def zero (negative : Bool) : Double :=
  ⟨negative, 0, 0, by decide, by decide, fun _ => rfl⟩

/-- The double nearest to `numerator / denominator`, a half going to the even
significand; `none` when the ratio rounds beyond the largest double. -/
def ofRatio? (negative : Bool) (numerator denominator : Nat) : Option Double :=
  let units := numerator * unitsPerOne
  let scale := (units / denominator).log2 - 52
  let significand := nearestEven units (denominator * Nat.pow 2 scale)
  if significand < 0x20000000000000 then
    ofParts? negative significand scale
  else
    ofParts? negative (significand / 2) (scale + 1)

/-- The integer that a double equals, if its value is integral. Both zeros equal
the integer zero. -/
def toInt? (d : Double) : Option Int :=
  let units := d.significand * Nat.pow 2 d.scale
  if units % unitsPerOne = 0 then
    let magnitude : Int := (units / unitsPerOne : Nat)
    some (if d.negative then -magnitude else magnitude)
  else
    none

end Double

end Tabula

import Tabula.Number.Decimal

/-!
# Shortest decimals of a double

A double stands for every real that rounds to it, its neighbourhood. The
shortest decimal of a double is the one with the fewest digits inside the
neighbourhood, and among those the nearest to the double itself. On the grid of
`n`-digit decimals only the two neighbours of the double have to be tried: if any
grid point lies in the neighbourhood, one of these does.
-/

namespace Tabula

/-- The choice between two shortest decimals at the same distance. -/
inductive Tie where
  | toEven
  | up
deriving DecidableEq, Repr

/-- The reals that round to one positive double, as multiples of `1 / unit`. The
ends belong to the neighbourhood when it is `closed`. -/
structure Neighbourhood where
  low : Nat
  middle : Nat
  high : Nat
  unit : Nat
  closed : Bool
deriving DecidableEq, Repr

/-- The neighbourhood of a double reaches half way to the doubles beside it. Below
a power of two the doubles lie twice as close. Halves round to even, so the ends
belong to the doubles with an even significand. -/
def Double.neighbourhood (d : Double) : Neighbourhood :=
  let step := Nat.pow 2 d.scale
  let gapBelow := if d.significand = 0x10000000000000 ∧ 0 < d.scale then 1 else 2
  { low := (4 * d.significand - gapBelow) * step
    middle := 4 * d.significand * step
    high := (4 * d.significand + 2) * step
    unit := 4 * unitsPerOne
    closed := d.significand % 2 = 0 }

namespace Neighbourhood

/-- The same neighbourhood measured in steps of `10 ^ place`. -/
def inSteps (n : Neighbourhood) : Int → Neighbourhood
  | .ofNat place => { n with unit := n.unit * Nat.pow 10 place }
  | .negSucc place =>
      let factor := Nat.pow 10 (place + 1)
      { n with low := n.low * factor, middle := n.middle * factor, high := n.high * factor }

/-- Whether a whole number of units lies in the neighbourhood. -/
def admits (n : Neighbourhood) (candidate : Nat) : Bool :=
  let point := candidate * n.unit
  if n.closed then n.low ≤ point && point ≤ n.high else n.low < point && point < n.high

/-- Whether the grid point above the middle is preferred to the one below it. -/
def prefersAbove (n : Neighbourhood) (tie : Tie) : Bool :=
  let twice := 2 * (n.middle % n.unit)
  if twice = n.unit then tie = .up || n.middle / n.unit % 2 = 1 else n.unit < twice

/-- The admitted whole number nearest to the middle, of the two around it. -/
def nearest? (n : Neighbourhood) (tie : Tie) : Option Nat :=
  let below := n.middle / n.unit
  match n.admits below, n.admits (below + 1) with
  | true, true => some (if n.prefersAbove tie then below + 1 else below)
  | true, false => some below
  | false, true => some (below + 1)
  | false, false => none

/-- The power of ten of the leading digit of the middle. -/
def order (n : Neighbourhood) : Int :=
  if n.unit ≤ n.middle then
    (decimalLength (n.middle / n.unit) : Int) - 1
  else
    -(decimalLength ((n.unit - 1) / n.middle) : Int)

/-- The first admitted decimal on ever finer grids, as a coefficient and a power of
ten. Seventeen digits tell all doubles apart, so one of the grids always has a
hit. -/
def shortest (n : Neighbourhood) (tie : Tie) : Nat × Int :=
  let places := (List.range 17).map fun (finer : Nat) => n.order - finer
  (places.findSome? fun place =>
    ((n.inSteps place).nearest? tie).map fun coefficient => (coefficient, place)).getD (0, 0)

end Neighbourhood

/-- Significant digits without trailing zeros, and the power of ten of the first
one. -/
structure Significant where
  digits : List Char
  order : Int
deriving DecidableEq, Repr

/-- The significant digits of the decimal `coefficient * 10 ^ place`; a lone zero
for zero. -/
def Significant.ofDecimal (coefficient : Nat) (place : Int) : Significant :=
  let digits := Nat.toDigits 10 coefficient
  let trimmed := (digits.reverse.dropWhile (· = '0')).reverse
  if trimmed = [] then ⟨['0'], 0⟩ else ⟨trimmed, place + digits.length - 1⟩

/-- The shortest digits of the magnitude of a double. -/
def Double.shortest (d : Double) (tie : Tie) : Significant :=
  if d.significand = 0 then
    ⟨['0'], 0⟩
  else
    let (coefficient, place) := d.neighbourhood.shortest tie
    Significant.ofDecimal coefficient place

end Tabula

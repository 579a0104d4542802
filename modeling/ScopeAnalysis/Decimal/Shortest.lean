import ScopeAnalysis.Decimal.Double

/-!
# Shortest decimals

`shortest mantissa exponent` is the decimal with the fewest digits among those that round to the
double `mantissa * 2 ^ exponent`. Of two such decimals of that length the nearer one is taken, and
of two equally near the greater.

All comparisons are exact. The reals that round to the double form an interval around it whose
ends are halfway to its neighbours; they belong to it when the mantissa is even. Measured in
quarters of the last binary place the double is `4 * mantissa`, its upper end two more, and its
lower end two less, or one less where the neighbour below is half as far away.
-/

namespace ScopeAnalysis

/-- The number `digits * 10 ^ exponent`. -/
structure Decimal where
  digits : Nat
  exponent : Int
  deriving DecidableEq, Repr

namespace Decimal

/-- How many decimal digits a number is written with. -/
def digitCount (n : Nat) : Nat := (Nat.toDigits 10 n).length

/-- The exponent of the leading decimal digit of the fraction `num / den`. -/
def leadingExponent (num den : Nat) : Int :=
  if den ≤ num then digitCount (num / den) - 1
  else -(digitCount ((den + num - 1) / num - 1))

/-- A double's rounding interval over a decimal grid: with `left` and `right` as common factors,
the double lies at `point * left / right` grid steps, and likewise its two ends. -/
structure Grid where
  left : Nat
  right : Nat
  low : Nat
  point : Nat
  high : Nat
  closed : Bool
  deriving DecidableEq, Repr

namespace Grid

/-- The grid with step `10 ^ step` around the double `mantissa * 2 ^ exponent`. -/
def around (mantissa : Nat) (exponent step : Int) : Grid where
  left := Nat.pow 10 (-step).toNat * Nat.pow 2 (exponent - 2).toNat
  right := Nat.pow 10 step.toNat * Nat.pow 2 (2 - exponent).toNat
  low := if mantissa = Double.hiddenBit ∧ Double.minExponent < exponent then 4 * mantissa - 1
    else 4 * mantissa - 2
  point := 4 * mantissa
  high := 4 * mantissa + 2
  closed := mantissa % 2 == 0

/-- The last grid point that is not above the double. -/
def below (g : Grid) : Nat := g.point * g.left / g.right

/-- Whether a grid point rounds to the double. -/
def holds (g : Grid) (candidate : Nat) : Bool :=
  if g.closed then g.low * g.left ≤ candidate * g.right && candidate * g.right ≤ g.high * g.left
  else g.low * g.left < candidate * g.right && candidate * g.right < g.high * g.left

/-- Whether the grid point above the double is at least as near as the one below. -/
def nearerAbove (g : Grid) : Bool :=
  (g.below + 1) * g.right - g.point * g.left ≤ g.point * g.left - g.below * g.right

/-- The neighbour of the double on this grid that rounds to it, if one does. -/
def pick? (g : Grid) : Option Nat :=
  match g.holds g.below, g.holds (g.below + 1) with
  | true, true => some (if g.nearerAbove then g.below + 1 else g.below)
  | true, false => some g.below
  | false, true => some (g.below + 1)
  | false, false => none

end Grid

/-- The first hit on ever finer grids, starting with steps of `10 ^ step`. -/
def search (mantissa : Nat) (exponent : Int) : Nat → Int → Decimal
  | 0, step => ⟨(Grid.around mantissa exponent step).below, step⟩
  | fuel + 1, step =>
    match (Grid.around mantissa exponent step).pick? with
    | some digits => ⟨digits, step⟩
    | none => search mantissa exponent fuel (step - 1)

/-- Takes zeros off the end of the digits. -/
def trim : Nat → Decimal → Decimal
  | 0, d => d
  | fuel + 1, d => if d.digits % 10 = 0 then trim fuel ⟨d.digits / 10, d.exponent + 1⟩ else d

/-- No double needs more digits than this to be told from its neighbours. -/
def maxDigits : Nat := 17

/-- The shortest decimal that rounds to a positive double. -/
def shortest (mantissa : Nat) (exponent : Int) : Decimal :=
  let grid := Grid.around mantissa exponent 0
  let leading := leadingExponent (grid.point * grid.left) grid.right
  trim maxDigits (search mantissa exponent maxDigits leading)

end Decimal

end ScopeAnalysis

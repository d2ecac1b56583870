import JuliaLint.Pattern

namespace JuliaLint
namespace Decimal

/-!
The shortest decimal that reads back as a given binary number.  A binary number
is a significand times a power of two, and the reals that round to it form an
interval around it.  The shortest decimal is the point of that interval on the
coarsest power-of-ten grid that has one; of two points on that grid the nearer
is taken, and the even one if they are equally near.

All comparisons are made between natural numbers: both sides are multiplied by
the powers of two and ten that the negative exponents call for.
-/

/-- A positive number `significand · 2 ^ exponent`. -/
structure Binary where
  significand : Nat
  exponent : Int
  /-- The next smaller number is only half as far away as the next larger one. -/
  narrowBelow : Bool
  deriving DecidableEq, Repr

/-- A positive number `digits · 10 ^ exponent`. -/
structure Scientific where
  digits : Nat
  exponent : Int
  deriving DecidableEq, Repr

/-- A power with an integer exponent, or one where the exponent is negative. -/
def power (base : Nat) (exponent : Int) : Nat :=
  Nat.pow base exponent.toNat

/--
The two units in which a quarter of the binary number's last place and a step
of the grid `10 ^ exponent` are measured by the same yardstick.
-/
def yardsticks (number : Binary) (exponent : Int) : Nat × Nat :=
  (power 2 (number.exponent - 2) * power 10 (-exponent),
    power 10 exponent * power 2 (2 - number.exponent))

/-- Whether a grid point lies among the reals that round to the number. -/
def roundsTo (number : Binary) (exponent : Int) (point : Nat) : Bool :=
  let (quarter, step) := yardsticks number exponent
  let low := (4 * number.significand - if number.narrowBelow then 1 else 2) * quarter
  let high := (4 * number.significand + 2) * quarter
  let place := point * step
  if number.significand % 2 = 0 then
    decide (low ≤ place) && decide (place ≤ high)
  else
    decide (low < place) && decide (place < high)

/-- The grid point nearest to the number among those that round to it. -/
def gridPoint? (number : Binary) (exponent : Int) : Option Scientific :=
  let (quarter, step) := yardsticks number exponent
  let exact := 4 * number.significand * quarter
  let below := exact / step
  let above := below + 1
  let distanceBelow := exact - below * step
  let distanceAbove := above * step - exact
  if roundsTo number exponent below && roundsTo number exponent above then
    if distanceBelow < distanceAbove ∨ (distanceBelow = distanceAbove ∧ below % 2 = 0) then
      some { digits := below, exponent }
    else
      some { digits := above, exponent }
  else if roundsTo number exponent below then
    some { digits := below, exponent }
  else if roundsTo number exponent above then
    some { digits := above, exponent }
  else
    none

/-- The smallest power of ten on whose grid a 64-bit number has a point. -/
def lowestGrid : Int := -324

/-- The number of grids between the smallest and the largest that are needed. -/
def gridCount : Nat := 632

/-- The shortest decimal that reads back as the number. -/
def shortest? (number : Binary) : Option Scientific :=
  largest? (fun grid => gridPoint? number (lowestGrid + grid)) gridCount

end Decimal
end JuliaLint

import JuliaLint.Decimal.Shortest

namespace JuliaLint
namespace Decimal

/-!
The text of a floating-point number.  A finite number is written with the
shortest digits that read back as it, positionally while its decimal point
stays near the digits and with a power of ten otherwise.  Both zeros are
written alike.
-/

/-- Where the decimal point may stand for a number to be written positionally. -/
structure Layout where
  /-- The point may stand this many places behind the first digit at most. -/
  furthestRight : Int
  /-- The point may stand this many places in front of the first digit at most. -/
  furthestLeft : Int
  deriving DecidableEq, Repr

/-- Positional up to twenty-one places to the right and five to the left. -/
def Layout.standard : Layout where
  furthestRight := 21
  furthestLeft := 5

def zeros (count : Int) : List Char :=
  List.replicate count.toNat '0'

/-- The digits of a decimal, laid out around its decimal point. -/
def Layout.write (layout : Layout) (number : Scientific) : List Char :=
  let digits := Nat.toDigits 10 number.digits
  let size : Int := digits.length
  let point := size + number.exponent
  if size ≤ point ∧ point ≤ layout.furthestRight then
    digits ++ zeros (point - size)
  else if 0 < point ∧ point ≤ layout.furthestRight then
    digits.take point.toNat ++ '.' :: digits.drop point.toNat
  else if -layout.furthestLeft ≤ point ∧ point ≤ 0 then
    '0' :: '.' :: zeros (-point) ++ digits
  else
    let fraction := if size = 1 then [] else '.' :: digits.drop 1
    let sign := if 0 < point then '+' else '-'
    digits.take 1 ++ fraction ++ 'e' :: sign :: Nat.toDigits 10 (point - 1).natAbs

/-- The weight of the bit above a 64-bit number's fraction, `2 ^ 52`. -/
def hiddenBit : Nat := 0x10000000000000

/-- The biased exponent of the numbers that are not finite. -/
def topExponent : Nat := 0x7FF

/-- The magnitude of a finite 64-bit number that is not zero. -/
def magnitude (biasedExponent fraction : Nat) : Binary :=
  if biasedExponent = 0 then
    { significand := fraction, exponent := -1074, narrowBelow := false }
  else
    { significand := hiddenBit + fraction
      exponent := (biasedExponent : Int) - 1075
      narrowBelow := fraction == 0 && decide (1 < biasedExponent) }

/--
The text of a floating-point number.  Every finite number other than zero has
a shortest decimal, so the last case does not arise.
-/
def numeral (value : Float) : String :=
  let bits := value.toBits.toNat
  let fraction := bits % hiddenBit
  let biasedExponent := bits / hiddenBit % (topExponent + 1)
  let sign := if bits / hiddenBit ≤ topExponent then [] else ['-']
  if biasedExponent = topExponent then
    if fraction = 0 then String.ofList (sign ++ "Infinity".toList) else "NaN"
  else if biasedExponent = 0 ∧ fraction = 0 then
    "0"
  else
    match shortest? (magnitude biasedExponent fraction) with
    | some number => String.ofList (sign ++ Layout.standard.write number)
    | none => "NaN"

end Decimal
end JuliaLint

import JuliaLint.Rule.Basic
import JuliaLint.Tally
import JuliaLint.Text.Blank
import JuliaLint.Text.Line

namespace JuliaLint
namespace IndentConsistency

/-!
Indentation in multiples of four.  The width of a line is the number of blank
units it starts with, a tab counting as one; blank lines are ignored.  When
some width is not a multiple of four, one finding shows how often every
remainder occurs.
-/

def step : Nat := 4

/-- The width of every line that is not blank, modulo the step. -/
def remainders (source : Text) : List Nat :=
  ((Text.lines source).filter fun line => !Text.isBlank line).map fun line =>
    (Text.leadingBlanks line).length % step

/-- One finding when some remainder is not zero. -/
def findings (source : Text) : List Finding :=
  if (remainders source).all (· == 0) then
    []
  else
    let message : Text := "Inconsistent indentation: " ++
      (Tally.ofList (remainders source)).render Text.ofNat ++ " – use 4 spaces"
    [Rule.indentConsistency.finding message none []]

end IndentConsistency
end JuliaLint

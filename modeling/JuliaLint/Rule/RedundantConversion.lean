import JuliaLint.Pattern
import JuliaLint.Rule.Basic
import JuliaLint.Text.Quoted

namespace JuliaLint
namespace RedundantConversion

/-!
Numeric literals inside a conversion to a type parameter.  Promotion already
converts them, so `T(0.5)` says no more than `0.5`.  The first three calls are
listed in one finding at the first of them.
-/

def isNumeral (unit : CodeUnit) : Bool :=
  unit.isDigit || unit == CodeUnit.fullStop

/-- The letter `T` applied to a numeric literal. -/
def call : Pattern Unit := fun _ ahead => do
  let ahead ← Text.after? "T(" ahead
  if ahead.takeWhile isNumeral = [] then
    none
  else
    let rest ← Text.after? ")" (ahead.dropWhile isNumeral)
    return ((), rest)

/-- One finding at the first such call. -/
def findings (source : Text) : List Finding :=
  match call.occurrences source with
  | [] => []
  | first :: others =>
      let listed := ((first :: others).take 3).map Occurrence.matched
      let message : Text := "Redundant T(0.5): " ++ Text.quotedList listed ++
        "... – remove T()"
      [Rule.redundantConversion.finding message (some (source.positionAt first.start)) []]

end RedundantConversion
end JuliaLint

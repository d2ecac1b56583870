import JuliaLint.Pattern
import JuliaLint.Rule.Basic

namespace JuliaLint
namespace VagueFilter

/-!
Filters over a quoted `not in`.  A lambda such as `filter(tf -> "a" not in tf)`
often has its quotes in the wrong place, so each one whose text between the
quotes holds no quoted text itself is reported with that text.
-/

/-- The filter call from its name to the first closing parenthesis on the line. -/
def lambda : Pattern Text := fun _ ahead => do
  let ahead ← Text.after? "filter(tf -> \"" ahead
  let (content, ahead) ← Text.upTo? CodeUnit.doubleQuote ahead
  let ahead ← Text.after? " not in " ahead
  let rest ← Text.after? ")"
    (ahead.dropWhile fun unit => !unit.isLineEnd && unit != CodeUnit.closingParenthesis)
  return (content, rest)

def quoted : Pattern Text := fun _ ahead => do
  let ahead ← Text.after? "\"" ahead
  Text.upTo? CodeUnit.doubleQuote ahead

/-- One finding for each filter whose text holds no quoted text. -/
def findings (source : Text) : List Finding :=
  let vague := (lambda.occurrences source).filter fun occurrence =>
    (quoted.occurrences occurrence.capture).isEmpty
  vague.map fun occurrence =>
    let message : Text := "Vague filter 'not in' for '" ++ occurrence.capture ++
      "' – check quotes"
    Rule.vagueFilter.finding message (some (source.positionAt occurrence.start)) []

end VagueFilter
end JuliaLint

import JuliaLint.Pattern
import JuliaLint.Rule.Basic
import JuliaLint.Text.Quoted

namespace JuliaLint
namespace MultiCharLiteral

/-!
Character literals that hold more than one code unit.  A literal runs from one
apostrophe to the next; the first three offenders are listed in one finding at
the first of them.
-/

/-- Two or more units between neighbouring apostrophes. -/
def literal : Pattern Text := fun _ ahead => do
  let ahead ← Text.after? "'" ahead
  let (content, rest) ← Text.upTo? CodeUnit.singleQuote ahead
  if 2 ≤ content.length then
    return (content, rest)
  else
    none

/-- One finding at the first offending literal. -/
def findings (source : Text) : List Finding :=
  match literal.occurrences source with
  | [] => []
  | first :: others =>
      let listed := ((first :: others).take 3).map Occurrence.capture
      let message : Text := "Multi-char literals: " ++ Text.quotedList listed ++
        "... – use string"
      [Rule.multiCharLiteral.finding message (some (source.positionAt first.start)) []]

end MultiCharLiteral
end JuliaLint

import JuliaLint.Pattern
import JuliaLint.Rule.Basic
import JuliaLint.Text.Identifier

namespace JuliaLint
namespace CatchSyntax

/-!
Catch clauses.  A clause is accepted when the word `catch` is followed by a low
line, or by a name with a semicolon behind it.  Any other clause is quoted from
the word `catch` up to the end of its line or the next `end`, whichever comes
first; a clause with neither behind it is not reported.
-/

/-- Whether the text starts with a low line, or with a name and a semicolon. -/
def isAccepted (text : Text) : Bool :=
  text.head? == some CodeUnit.underscore ||
    (Text.startsInName text &&
      (Text.skipBlanks (Text.skipName text)).head? == some CodeUnit.semicolon)

/-- Whether a quoted clause stops in front of the text. -/
def stopsClause (text : Text) : Bool :=
  text.head? == some CodeUnit.lineFeed || (Text.after? "end" text).isSome

/-- The text behind a clause that starts without an accepted form. -/
def clauseEnd? (text : Text) : Option Text :=
  if isAccepted text then none else Text.seek? stopsClause text

/--
A clause that is not accepted.  The blank space after `catch` is skipped as far
as the rest of the clause permits, and at least one blank unit is needed.
-/
def clause : Pattern Unit := fun _ ahead => do
  let ahead ← Text.after? "catch" ahead
  match ahead with
  | [] => none
  | unit :: ahead =>
      if unit.isBlank then
        let rest ← Text.skipMostBlanks? clauseEnd? ahead
        return ((), rest)
      else
        none

/-- One finding for each clause, quoting it without the blank space around it. -/
def findings (source : Text) : List Finding :=
  (clause.occurrences source).map fun occurrence =>
    let message : Text := "Invalid catch: '" ++ Text.trim occurrence.matched ++
      "' – use 'catch _;' or 'catch err;'"
    Rule.catchSyntax.finding message (some (source.positionAt occurrence.start)) []

end CatchSyntax
end JuliaLint

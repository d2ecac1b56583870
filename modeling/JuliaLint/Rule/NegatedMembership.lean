import JuliaLint.Pattern
import JuliaLint.Rule.Basic

namespace JuliaLint
namespace NegatedMembership

/-!
Quoted operands of `not in`, turned into a negated membership test.  An
expression is a quoted text, the words `not` and `in`, and an operand that runs
to the next semicolon, comma, closing parenthesis or line feed.  The negated
test starts with an exclamation mark, keeps the content of double quotes and
drops that of apostrophes.  All expressions of a text share one finding, which
carries an edit for each.
-/

/-- The parts of a quoted membership test. -/
structure Membership where
  /-- The mark around the quoted text. -/
  quote : CodeUnit
  content : Text
  operand : Text
  deriving DecidableEq, Repr

def endsOperand (unit : CodeUnit) : Bool :=
  unit == CodeUnit.semicolon || unit == CodeUnit.comma ||
    unit == CodeUnit.closingParenthesis || unit == CodeUnit.lineFeed

/-- The operand that the text starts with, unless it is empty, and the rest. -/
def operand? (text : Text) : Option (Text × Text) :=
  match text.takeWhile (fun unit => !endsOperand unit) with
  | [] => none
  | unit :: units => some (unit :: units, text.dropWhile fun unit => !endsOperand unit)

/-- The quoted text that the text starts with: its mark, its content and the rest. -/
def quotedText? : Text → Option (CodeUnit × Text × Text)
  | [] => none
  | unit :: text =>
      if unit = CodeUnit.doubleQuote ∨ unit = CodeUnit.singleQuote then
        (Text.upTo? unit text).map fun (content, rest) => (unit, content, rest)
      else
        none

/--
A quoted text, the words `not` and `in`, and an operand.  Blank space in front
of the operand does not belong to it, unless nothing else would be left.
-/
def expression : Pattern Membership := fun _ ahead => do
  let (quote, content, ahead) ← quotedText? ahead
  let ahead ← Text.after? "not" (Text.skipBlanks ahead)
  let ahead ← Text.skipSomeBlanks? ahead
  let ahead ← Text.after? "in" ahead
  let (operand, rest) ← Text.skipMostBlanks? operand? ahead
  return ({ quote, content, operand }, rest)

namespace Membership

/-- What the negated test keeps of the quoted text. -/
def element (membership : Membership) : Text :=
  if membership.quote = CodeUnit.doubleQuote then membership.content else []

def negated (membership : Membership) : Text :=
  "!" ++ membership.element ++ " in " ++ membership.operand

end Membership

/-- The edit that puts the negated test in the place of one expression. -/
def edit (source : Text) (occurrence : Occurrence Membership) : Edit where
  description := "Replace 'not in' with a negated membership test"
  applicable := true
  start := source.positionAt occurrence.start
  stop := source.positionAt occurrence.stop
  replacement := occurrence.capture.negated

/-- Whether the negated test differs from the expression that it replaces. -/
def changes (occurrence : Occurrence Membership) : Bool :=
  occurrence.capture.negated != occurrence.matched

/--
One finding at the first expression, if the text has a plain `not in` and some
expression is changed.
-/
def findings (source : Text) : List Finding :=
  if Text.holds "not in" source then
    match expression.occurrences source with
    | [] => []
    | first :: others =>
        if (first :: others).any changes then
          [Rule.negatedMembership.finding
            "Auto-fixed 'not in' to '!(... in ...)' – see fixed code below"
            (some (source.positionAt first.start))
            ((first :: others).map (edit source))]
        else
          []
  else
    []

end NegatedMembership
end JuliaLint

import JuliaLint.Pattern
import JuliaLint.Rule.Basic
import JuliaLint.Text.Identifier

namespace JuliaLint
namespace BlockBalance

/-!
Function headers against closing lines.  The rule counts the word `function`
before a name and the lines that hold nothing but `end`, and reports both
counts when they differ.  Other block openers are not counted.
-/

/-- The word `function`, blank space, and the first character of a name. -/
def functionHeader : Pattern Unit := fun _ ahead => do
  let ahead ← Text.after? "function" ahead
  let ahead ← Text.skipSomeBlanks? ahead
  let rest ← Text.skipNameCharacter? ahead
  return ((), rest)

/-- Whether a line starts behind the given units, nearest first. -/
def startsLine : (before : Text) → Bool
  | [] => true
  | unit :: _ => unit.isLineEnd

def endsLine : (ahead : Text) → Bool
  | [] => true
  | unit :: _ => unit.isLineEnd

/--
The word `end` alone on its line.  The blank space on either side may run
across line ends, as long as a line starts in front of it and ends behind it.
-/
def closingLine : Pattern Unit := fun before ahead =>
  if startsLine before then do
    let ahead ← Text.after? "end" (Text.skipBlanks ahead)
    let rest ← Text.skipMostBlanks? (fun rest => if endsLine rest then some rest else none) ahead
    return ((), rest)
  else
    none

def headerCount (source : Text) : Nat :=
  (functionHeader.occurrences source).length

/-- The number of lines that hold only `end`. -/
def closingCount (source : Text) : Nat :=
  (closingLine.occurrences source).length

/-- One finding when the counts differ. -/
def findings (source : Text) : List Finding :=
  if headerCount source = closingCount source then
    []
  else
    let message : Text := "Imbalance: " ++ Text.ofNat (headerCount source) ++
      " 'function' vs " ++ Text.ofNat (closingCount source) ++ " 'end'"
    [Rule.blockBalance.finding message none []]

end BlockBalance
end JuliaLint

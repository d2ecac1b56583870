import JuliaLint.Pattern
import JuliaLint.Rule.Basic
import JuliaLint.Text.Identifier
import JuliaLint.Text.Order

namespace JuliaLint
namespace ForeignOperator

/-!
Keywords and operators spelled as in other languages.  A word counts only where
no identifier character stands on either side of it.  One finding, at the first
occurrence, lists up to three of the words that occur, each with the spelling
to use in its place.
-/

inductive Word where
  | conjunction
  | disjunction
  | elseIf
  | truth
  | falsity
  | nonIdentity
  deriving DecidableEq, Repr

namespace Word

/-- The foreign words, in the order in which they are tried. -/
def all : List Word :=
  [conjunction, disjunction, elseIf, truth, falsity, nonIdentity]

def spelling : Word → Text
  | conjunction => "and"
  | disjunction => "or"
  | elseIf => "elif"
  | truth => "True"
  | falsity => "False"
  | nonIdentity => "is not"

theorem mem_all (word : Word) : word ∈ all := by
  cases word <;> decide

end Word

/-- The rest behind a foreign word with which the text starts as a whole word. -/
def afterWord? (text : Text) (word : Word) : Option (Word × Text) := do
  let rest ← Text.after? word.spelling text
  if Text.startsInName rest then none else return (word, rest)

/-- A foreign word with no identifier character on either side. -/
def wholeWord : Pattern Word := fun before ahead =>
  if Text.endsInName before then none else Word.all.findSome? (afterWord? ahead)

def replacements : List (Text × Text) :=
  [("and", "&&"), ("or", "||"), ("elif", "elseif"), ("True", "true"), ("False", "false"),
    ("is not", "!==")]

/-- A word and its replacement, as a message shows them. -/
def advice (word : Text) : Text :=
  "'" ++ word ++ "' (use '" ++ (replacements.lookup word).getD "Unknown" ++ "')"

/-- The words that occur, each once, by ascending code units. -/
def wordsIn (occurrences : List (Occurrence Word)) : List Text :=
  Text.ascending (occurrences.map Occurrence.matched).eraseDups

/-- One finding at the first foreign word. -/
def findings (source : Text) : List Finding :=
  match wholeWord.occurrences source with
  | [] => []
  | first :: others =>
      let listed := ((wordsIn (first :: others)).take 3).map advice
      let message : Text := "Non-Julia operators: " ++ Text.join ", " listed ++ "..."
      [Rule.foreignOperator.finding message (some (source.positionAt first.start)) []]

end ForeignOperator
end JuliaLint

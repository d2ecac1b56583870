import JuliaLint.Text.Basic
import JuliaLint.Unicode.Letter
import JuliaLint.Unicode.Number
import JuliaLint.Unicode.Mark

namespace JuliaLint

/-!
Identifier characters.  A name is made of letters, numbers and combining marks
of any script and of the low line, so word boundaries are decided on whole
code points: both halves of a surrogate pair are read together, and a
surrogate without its partner belongs to no name.
-/

/-- Whether the code point may stand in a name. -/
def isIdentifierCodePoint (codePoint : Nat) : Bool :=
  codePoint == CodeUnit.underscore.toNat || Unicode.isLetter codePoint ||
    Unicode.isNumber codePoint || Unicode.isMark codePoint

namespace Text

def startsInName (text : Text) : Bool :=
  (firstCodePoint? text).any isIdentifierCodePoint

/-- Whether a text that is given backwards ends with an identifier character. -/
def endsInName (backwards : Text) : Bool :=
  (lastCodePoint? backwards).any isIdentifierCodePoint

def skipCodePoint : Text → Text
  | [] => []
  | [_] => []
  | first :: second :: text =>
      if first.isLeadSurrogate && second.isTrailSurrogate then text else second :: text

/-- The rest after one identifier character. -/
def skipNameCharacter? (text : Text) : Option Text :=
  if startsInName text then some (skipCodePoint text) else none

/-- The text from its first character that may not stand in a name. -/
def skipName : Text → Text
  | [] => []
  | [unit] => if isIdentifierCodePoint unit.toNat then [] else [unit]
  | first :: second :: text =>
      if first.isLeadSurrogate && second.isTrailSurrogate then
        if isIdentifierCodePoint (CodeUnit.pairCodePoint first second) then
          skipName text
        else
          first :: second :: text
      else if isIdentifierCodePoint first.toNat then
        skipName (second :: text)
      else
        first :: second :: text

/-- A name is skipped one identifier character at a time. -/
theorem skipName_eq (text : Text) :
    skipName text =
      match skipNameCharacter? text with
      | none => text
      | some rest => skipName rest := by
  unfold skipNameCharacter? startsInName
  match text with
  | [] => rfl
  | [unit] =>
      rw [skipName, firstCodePoint?, Option.any_some, skipCodePoint]
      cases isIdentifierCodePoint unit.toNat <;> rfl
  | first :: second :: text =>
      rw [skipName, firstCodePoint?, skipCodePoint]
      split
      · rw [Option.any_some]
        cases isIdentifierCodePoint (CodeUnit.pairCodePoint first second) <;> rfl
      · rw [Option.any_some]
        cases isIdentifierCodePoint first.toNat <;> rfl

end Text
end JuliaLint

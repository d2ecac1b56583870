import JuliaLint.Text.Basic

namespace JuliaLint

/-!
Positions in a text.  Lines and columns count from one and offsets from zero.
Only line feeds start a new line, and a column counts code units.  Asking for
a position outside the text gives the nearest end.
-/

/-- A place in a text: its line, its column and its offset. -/
structure Position where
  line : Nat
  column : Nat
  offset : Nat
  deriving DecidableEq, Repr

namespace Text

/-- The offset inside the text that is nearest to an integer. -/
def clamp (text : Text) (offset : Int) : Nat :=
  (max 0 (min offset text.length)).toNat

/--
The position of an offset.  The line is one more than the number of line feeds
before the offset; the column is one more than the number of units since the
last of them.
-/
def positionAt (text : Text) (offset : Int) : Position :=
  let before := text.take (text.clamp offset)
  { line := before.count CodeUnit.lineFeed + 1
    column := (before.reverse.takeWhile (· ≠ CodeUnit.lineFeed)).length + 1
    offset := text.clamp offset }

theorem clamp_le_length (text : Text) (offset : Int) :
    text.clamp offset ≤ text.length := by
  unfold clamp
  omega

/-- An offset inside the text stays as it is. -/
theorem clamp_of_le {text : Text} {offset : Nat} (inside : offset ≤ text.length) :
    text.clamp offset = offset := by
  unfold clamp
  omega

/-- A position agrees with the position of its own offset. -/
theorem positionAt_offset (text : Text) (offset : Int) :
    text.positionAt (text.positionAt offset).offset = text.positionAt offset := by
  have inside : text.clamp ((text.clamp offset : Nat) : Int) = text.clamp offset :=
    clamp_of_le (clamp_le_length text offset)
  unfold positionAt
  simp only [inside]

end Text
end JuliaLint

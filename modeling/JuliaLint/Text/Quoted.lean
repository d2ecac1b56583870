import JuliaLint.Text.Basic

namespace JuliaLint

/-!
Lists of quoted items, as messages show them.  Each item stands between
apostrophes, with the backslash and the three control characters that would
break a line of output written as escapes; the items are separated by a comma
and a space and stand between brackets.
-/

namespace Text

/-- The written form of one unit inside quotes. -/
def escapeUnit (unit : CodeUnit) : Text :=
  if unit = CodeUnit.backslash then ofString "\\\\"
  else if unit = CodeUnit.lineFeed then ofString "\\n"
  else if unit = CodeUnit.carriageReturn then ofString "\\r"
  else if unit = CodeUnit.tab then ofString "\\t"
  else [unit]

/-- The text with backslashes and line-breaking controls written as escapes. -/
def escape (text : Text) : Text :=
  text.flatMap escapeUnit

/-- The text between apostrophes, escaped. -/
def quoted (text : Text) : Text :=
  "'" ++ escape text ++ "'"

def quotedList (items : List Text) : Text :=
  "[" ++ join ", " (items.map quoted) ++ "]"

/-- Whether a unit can stand in a line of output without breaking it up. -/
def isVisible (unit : CodeUnit) : Bool :=
  unit != CodeUnit.lineFeed && unit != CodeUnit.carriageReturn && unit != CodeUnit.tab

/-- No line feed, carriage return or tab survives the escaping of a unit. -/
theorem escapeUnit_visible (unit : CodeUnit) :
    (escapeUnit unit).all isVisible = true := by
  unfold escapeUnit
  split
  · decide
  split
  · decide
  split
  · decide
  split
  · decide
  · simp_all [isVisible]

/-- No line feed, carriage return or tab survives escaping. -/
theorem escape_visible (text : Text) : (escape text).all isVisible = true := by
  rw [escape, List.all_flatMap, List.all_eq_true]
  intro unit _
  exact escapeUnit_visible unit

end Text
end JuliaLint

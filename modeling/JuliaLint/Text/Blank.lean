import JuliaLint.Text.Basic

namespace JuliaLint

/-!
Blank space and line ends.  The blank units are the tab, line and page
controls, the Unicode space separators, the two Unicode line separators and
the byte order mark.  Four of them end a line; trimming removes blank units at
either end of a text.
-/

namespace CodeUnit

/-- The units that separate words, in ascending order. -/
def blanks : List CodeUnit :=
  [0x0009, 0x000A, 0x000B, 0x000C, 0x000D, 0x0020, 0x00A0, 0x1680, 0x2000,
    0x2001, 0x2002, 0x2003, 0x2004, 0x2005, 0x2006, 0x2007, 0x2008, 0x2009,
    0x200A, 0x2028, 0x2029, 0x202F, 0x205F, 0x3000, 0xFEFF]

/-- The units at which a line may end, in ascending order. -/
def lineEnds : List CodeUnit :=
  [0x000A, 0x000D, 0x2028, 0x2029]

def isBlank (unit : CodeUnit) : Bool :=
  decide (unit ∈ blanks)

def isLineEnd (unit : CodeUnit) : Bool :=
  decide (unit ∈ lineEnds)

/-- Every line end is blank space. -/
theorem isBlank_of_isLineEnd {unit : CodeUnit}
    (ends : unit.isLineEnd = true) : unit.isBlank = true := by
  have member : unit ∈ lineEnds := of_decide_eq_true ends
  have subset : lineEnds.all isBlank = true := by decide
  exact List.all_eq_true.mp subset unit member

end CodeUnit

namespace Text

def leadingBlanks (text : Text) : Text :=
  text.takeWhile CodeUnit.isBlank

/-- The text from its first unit that is not blank. -/
def skipBlanks (text : Text) : Text :=
  text.dropWhile CodeUnit.isBlank

/-- The rest after at least one blank unit, of which all are skipped. -/
def skipSomeBlanks? : Text → Option Text
  | [] => none
  | unit :: text => if unit.isBlank then some (skipBlanks text) else none

def trim (text : Text) : Text :=
  (skipBlanks (skipBlanks text).reverse).reverse

def isBlank (text : Text) : Bool :=
  text.all CodeUnit.isBlank

/-- The leading blank units and what follows them make up the whole text. -/
theorem leadingBlanks_append_skipBlanks (text : Text) :
    leadingBlanks text ++ skipBlanks text = text :=
  List.takeWhile_append_dropWhile

/-- Nothing is left after the leading blanks exactly when every unit is blank. -/
theorem skipBlanks_eq_nil_iff {text : Text} :
    skipBlanks text = [] ↔ isBlank text = true := by
  induction text with
  | nil => simp [skipBlanks, isBlank]
  | cons unit text ih =>
      by_cases unitBlank : unit.isBlank = true
      · have step : skipBlanks (unit :: text) = skipBlanks text := by
          simp [skipBlanks, unitBlank]
        rw [step, ih]
        simp [isBlank, unitBlank]
      · simp [skipBlanks, isBlank, unitBlank]

/-- Trimming leaves nothing exactly when every unit is blank. -/
theorem trim_eq_nil_iff {text : Text} :
    trim text = [] ↔ isBlank text = true := by
  rw [trim, List.reverse_eq_nil_iff, skipBlanks_eq_nil_iff]
  constructor
  · intro blank
    apply skipBlanks_eq_nil_iff.mp
    cases rest : skipBlanks text with
    | nil => rfl
    | cons unit more =>
        have first : unit.isBlank = false := by
          have head := List.head?_dropWhile_not CodeUnit.isBlank text
          rw [show text.dropWhile CodeUnit.isBlank = unit :: more from rest] at head
          simpa using head
        rw [rest] at blank
        simp [isBlank, first] at blank
  · intro blank
    simp [skipBlanks_eq_nil_iff.mpr blank, isBlank]

end Text
end JuliaLint

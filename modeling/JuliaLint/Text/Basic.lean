namespace JuliaLint

/-!
Script text as a sequence of 16-bit code units.  Offsets, columns and widths
all count these units, so the text type is the plain list of them and every
operation on text is an operation on lists.  A character outside the basic
plane is a lead surrogate followed by a trail surrogate; a text in which every
surrogate belongs to such a pair is well formed and denotes a `String`.
-/

/-- One UTF-16 code unit. -/
abbrev CodeUnit := UInt16

/-- A text is the list of its code units. -/
abbrev Text := List CodeUnit

namespace CodeUnit

def tab : CodeUnit := 0x09

/-- The line feed, which alone separates lines for columns and indentation. -/
def lineFeed : CodeUnit := 0x0A

def carriageReturn : CodeUnit := 0x0D

def doubleQuote : CodeUnit := 0x22

def singleQuote : CodeUnit := 0x27

def closingParenthesis : CodeUnit := 0x29

def comma : CodeUnit := 0x2C

def fullStop : CodeUnit := 0x2E

def semicolon : CodeUnit := 0x3B

def backslash : CodeUnit := 0x5C

def underscore : CodeUnit := 0x5F

/-- The replacement character, written for what cannot be decoded. -/
def replacement : CodeUnit := 0xFFFD

def isLeadSurrogate (unit : CodeUnit) : Bool :=
  decide (0xD800 ≤ unit.toNat) && decide (unit.toNat ≤ 0xDBFF)

def isTrailSurrogate (unit : CodeUnit) : Bool :=
  decide (0xDC00 ≤ unit.toNat) && decide (unit.toNat ≤ 0xDFFF)

def isDigit (unit : CodeUnit) : Bool :=
  decide (0x30 ≤ unit.toNat) && decide (unit.toNat ≤ 0x39)

/-- The code point that a lead and a trail surrogate stand for together. -/
def pairCodePoint (lead trail : CodeUnit) : Nat :=
  0x10000 + (lead.toNat - 0xD800) * 0x400 + (trail.toNat - 0xDC00)

end CodeUnit

namespace Text

/-- The code units of a code point: one inside the basic plane, otherwise two. -/
def ofCodePoint (codePoint : Nat) : Text :=
  if codePoint < 0x10000 then
    [UInt16.ofNat codePoint]
  else
    [UInt16.ofNat (0xD800 + (codePoint - 0x10000) / 0x400),
      UInt16.ofNat (0xDC00 + (codePoint - 0x10000) % 0x400)]

def ofChars (characters : List Char) : Text :=
  characters.flatMap fun character => ofCodePoint character.toNat

def ofString (string : String) : Text :=
  ofChars string.toList

instance : Coe String Text where
  coe := ofString

/-- The decimal digits of a natural number. -/
def ofNat (number : Nat) : Text :=
  ofChars (Nat.toDigits 10 number)

/-- The decimal digits of an integer, after a minus sign if it is negative. -/
def ofInt : Int → Text
  | .ofNat number => ofNat number
  | .negSucc number => ofString "-" ++ ofNat (number + 1)

/--
What follows `word` when the text starts with it.  Nothing is returned for a
text that starts otherwise, so a success accounts for the whole text.
-/
def after? : (word text : Text) → Option Text
  | [], text => some text
  | _ :: _, [] => none
  | expected :: word, unit :: text =>
      if unit = expected then after? word text else none

/-- Whether `word` stands somewhere in the text. -/
def holds (word : Text) : Text → Bool
  | [] => (after? word []).isSome
  | unit :: text => (after? word (unit :: text)).isSome || holds word text

def join (separator : Text) (items : List Text) : Text :=
  List.intercalate separator items

theorem after?_eq_some_iff {word text rest : Text} :
    after? word text = some rest ↔ text = word ++ rest := by
  induction word generalizing text with
  | nil => simp [after?]
  | cons expected word ih =>
      cases text with
      | nil => simp [after?]
      | cons unit text =>
          by_cases same : unit = expected
          · simp [after?, same, ih]
          · simp [after?, same]

/-- A word occurs in a text exactly when it is an infix of it. -/
theorem holds_eq_true_iff {word text : Text} :
    holds word text = true ↔ word <:+: text := by
  induction text with
  | nil =>
      cases word with
      | nil => simp [holds, after?]
      | cons expected word => simp [holds, after?]
  | cons unit text ih =>
      have starts : (after? word (unit :: text)).isSome = true ↔
          word <+: unit :: text := by
        rw [Option.isSome_iff_exists]
        constructor
        · rintro ⟨rest, found⟩
          exact ⟨rest, (after?_eq_some_iff.mp found).symm⟩
        · rintro ⟨rest, split⟩
          exact ⟨rest, after?_eq_some_iff.mpr split.symm⟩
      rw [holds, Bool.or_eq_true, starts, ih, List.infix_cons_iff]

/-! ## Code points -/

/-- The first code point; a surrogate without its partner counts as itself. -/
def firstCodePoint? : Text → Option Nat
  | [] => none
  | [unit] => some unit.toNat
  | first :: second :: _ =>
      if first.isLeadSurrogate && second.isTrailSurrogate then
        some (CodeUnit.pairCodePoint first second)
      else
        some first.toNat

/--
The last code point of a text that is given backwards, nearest unit first; a
surrogate without its partner counts as itself.
-/
def lastCodePoint? : (backwards : Text) → Option Nat
  | [] => none
  | [unit] => some unit.toNat
  | last :: previous :: _ =>
      if last.isTrailSurrogate && previous.isLeadSurrogate then
        some (CodeUnit.pairCodePoint previous last)
      else
        some last.toNat

/-- The character of a single unit, unless it is a surrogate. -/
def unitChar? (unit : CodeUnit) : Option Char :=
  if unit.isLeadSurrogate || unit.isTrailSurrogate then
    none
  else
    some (Char.ofNat unit.toNat)

/-- The characters of a text, with nothing in the place of a lone surrogate. -/
def characters : Text → List (Option Char)
  | [] => []
  | [unit] => [unitChar? unit]
  | first :: second :: text =>
      if first.isLeadSurrogate && second.isTrailSurrogate then
        some (Char.ofNat (CodeUnit.pairCodePoint first second)) :: characters text
      else
        unitChar? first :: characters (second :: text)

/-- Every surrogate of the text belongs to a pair. -/
def isWellFormed (text : Text) : Bool :=
  (characters text).all Option.isSome

def toString? (text : Text) : Option String :=
  ((characters text).mapM id).map String.ofList

/-- The string of a text, with the replacement character for lone surrogates. -/
def toReadableString (text : Text) : String :=
  String.ofList ((characters text).map fun character? => character?.getD '\uFFFD')

end Text
end JuliaLint

import JuliaLint.Proofs.ClosingLines
import JuliaLint.Proofs.WholeWords

namespace JuliaLint

/-!
# Texts that are joined at a line feed

Five of the rules look at a text line by line, though none of their patterns says
so.  If two texts are joined by a line feed, nothing is found across the seam and
nothing is lost at it, so what is found in the whole is what is found in the two
parts.

For a pattern this follows from two facts about the unit at the seam.  Reading
from a place in front of it ends before the unit or not at all, and reading from
a place behind it does not look back over the unit.  Both hold for numeric
conversions and for foreign words at every line end.  A match for a closing line
does run across line ends, but there is one for each closing line, and lines are
not affected by what stands on the other side of the seam.
-/

namespace Pattern

variable {α : Type}

/-- No match looks over the unit, neither ahead nor back. -/
structure PartedBy (pattern : Pattern α) (unit : CodeUnit) : Prop where
  ahead : ∀ before front rest, pattern before (front ++ unit :: rest) =
    (pattern before front).map fun read => (read.1, read.2 ++ unit :: rest)
  behind : ∀ front before rest, pattern (front ++ unit :: before) rest = pattern front rest

/-- What an occurrence reads, wherever it stands. -/
def reading (occurrence : Occurrence α) : Text × α :=
  (occurrence.matched, occurrence.capture)

def readings (pattern : Pattern α) (text : Text) : List (Text × α) :=
  (pattern.occurrences text).map reading

section Seams

variable {pattern : Pattern α} (advances : pattern.Advances)

include advances

theorem refused_nil (before : Text) : pattern before [] = none := by
  cases read : pattern before [] with
  | none => rfl
  | some answer =>
      rcases advances _ _ _ _ read with ⟨matched, nonempty, split⟩
      exact absurd (List.append_eq_nil_iff.mp split.symm).1 nonempty

variable {unit : CodeUnit} (parted : pattern.PartedBy unit)

include parted

/-- What is read behind the seam does not depend on what stands in front of it. -/
theorem map_reading_scanFrom_behind (front before ahead : Text) :
    (scanFrom pattern (front ++ unit :: before) 0 ahead).map reading =
      (scanFrom pattern front 0 ahead).map reading := by
  induction front, ahead using walk_induction advances with
  | finished front => simp only [scanFrom]
  | refused front first ahead outcome ih =>
      have alsoRefused : pattern (front ++ unit :: before) (first :: ahead) = none := by
        rw [parted.behind, outcome]
      rw [scanFrom_of_refused alsoRefused, scanFrom_of_refused outcome]
      exact ih
  | accepted front matched capture rest nonempty outcome ih =>
      have alsoAccepted : pattern (front ++ unit :: before) (matched ++ rest) =
          some (capture, rest) := by
        rw [parted.behind, outcome]
      rw [List.append_assoc] at ih
      rw [scanFrom_of_accepted nonempty alsoAccepted, scanFrom_of_accepted nonempty outcome,
        List.map_cons, List.map_cons, ih]
      rfl

/-- A scan up to the seam lists what stands in front of it and goes on behind it. -/
theorem map_reading_scanFrom_append (before front back : Text) :
    (scanFrom pattern before 0 (front ++ unit :: back)).map reading =
      (scanFrom pattern before 0 front).map reading ++ pattern.readings back := by
  induction before, front using walk_induction advances with
  | finished before =>
      have refusedHere : pattern before (unit :: back) = none := by
        have read := parted.ahead before [] back
        rwa [refused_nil advances, List.nil_append] at read
      rw [List.nil_append, scanFrom_of_refused refusedHere]
      exact map_reading_scanFrom_behind advances parted [] before back
  | refused before first front outcome ih =>
      have alsoRefused : pattern before (first :: (front ++ unit :: back)) = none := by
        have read := parted.ahead before (first :: front) back
        rwa [outcome] at read
      rw [List.cons_append, scanFrom_of_refused alsoRefused, scanFrom_of_refused outcome, ih]
  | accepted before matched capture rest nonempty outcome ih =>
      have alsoAccepted : pattern before (matched ++ (rest ++ unit :: back)) =
          some (capture, rest ++ unit :: back) := by
        have read := parted.ahead before (matched ++ rest) back
        rwa [outcome, List.append_assoc] at read
      rw [List.append_assoc, scanFrom_of_accepted nonempty alsoAccepted,
        scanFrom_of_accepted nonempty outcome, List.map_cons, List.map_cons, ih, List.cons_append]

/-- What is read in a joined text is what is read in its two parts. -/
theorem readings_append_cons (front back : Text) :
    pattern.readings (front ++ unit :: back) =
      pattern.readings front ++ pattern.readings back :=
  map_reading_scanFrom_append advances parted [] front back

end Seams

theorem map_matched_occurrences (pattern : Pattern α) (text : Text) :
    (pattern.occurrences text).map Occurrence.matched = (pattern.readings text).map Prod.fst := by
  rw [readings, List.map_map]
  rfl

theorem map_capture_occurrences (pattern : Pattern α) (text : Text) :
    (pattern.occurrences text).map Occurrence.capture = (pattern.readings text).map Prod.snd := by
  rw [readings, List.map_map]
  rfl

end Pattern

/-! ## The two patterns that read inside a line -/

/-- A stretch of accepted units ends in front of a unit that is not accepted. -/
theorem Text.span_append_cons {accepts : CodeUnit → Bool} {unit : CodeUnit}
    (stops : accepts unit = false) (text rest : Text) :
    (text ++ unit :: rest).takeWhile accepts = text.takeWhile accepts ∧
      (text ++ unit :: rest).dropWhile accepts = text.dropWhile accepts ++ unit :: rest := by
  induction text with
  | nil => simp [stops]
  | cons first text ih =>
      cases accepted : accepts first with
      | true => simp [accepted, ih]
      | false => simp [accepted]

namespace RedundantConversion

theorem call_advances : call.Advances := by
  intro before ahead capture rest found
  rcases eq_append_of_call found with ⟨numeral, split⟩
  refine ⟨"T(" ++ (numeral ++ [CodeUnit.closingParenthesis]), by simp, ?_⟩
  rw [split]
  simp only [List.append_assoc, List.singleton_append]

theorem not_mem_call_of_isLineEnd {unit : CodeUnit} (ends : unit.isLineEnd = true) :
    unit ∉ Text.ofString "T(" ∧ isNumeral unit = false ∧ unit ∉ Text.ofString ")" := by
  have member : unit ∈ CodeUnit.lineEnds := of_decide_eq_true ends
  have onLineEnds : CodeUnit.lineEnds.all (fun unit => decide (unit ∉ Text.ofString "T(" ∧
      isNumeral unit = false ∧ unit ∉ Text.ofString ")")) = true := by
    decide
  exact of_decide_eq_true (List.all_eq_true.mp onLineEnds unit member)

/-- A line end is no part of a conversion. -/
theorem call_partedBy {unit : CodeUnit} (ends : unit.isLineEnd = true) : call.PartedBy unit where
  ahead := by
    intro before front rest
    rcases not_mem_call_of_isLineEnd ends with ⟨notOpening, notNumeral, notClosing⟩
    unfold call
    rw [Text.after?_append_cons notOpening]
    cases Text.after? "T(" front with
    | none => rfl
    | some behind =>
        rcases Text.span_append_cons notNumeral behind rest with ⟨sameNumeral, sameRest⟩
        simp only [Option.map_some, Option.bind_eq_bind, Option.bind_some, sameNumeral, sameRest]
        split
        · rfl
        · rw [Text.after?_append_cons notClosing]
          cases Text.after? ")" (behind.dropWhile isNumeral) <;> rfl
  behind := fun _ _ _ => rfl

end RedundantConversion

namespace ForeignOperator

theorem Word.not_mem_spelling_of_isLineEnd {unit : CodeUnit} (ends : unit.isLineEnd = true)
    (word : Word) : unit ∉ word.spelling := by
  have member : unit ∈ CodeUnit.lineEnds := of_decide_eq_true ends
  have onLineEnds : CodeUnit.lineEnds.all (fun unit => decide (unit ∉ word.spelling)) = true := by
    cases word <;> decide
  exact of_decide_eq_true (List.all_eq_true.mp onLineEnds unit member)

/-- A word in front of a line end is read as it is at the end of the text. -/
theorem afterWord?_append_cons {unit : CodeUnit} (ends : unit.isLineEnd = true)
    (front rest : Text) (word : Word) :
    afterWord? (front ++ unit :: rest) word =
      (afterWord? front word).map fun read => (read.1, read.2 ++ unit :: rest) := by
  unfold afterWord?
  rw [Text.after?_append_cons (word.not_mem_spelling_of_isLineEnd ends)]
  cases Text.after? word.spelling front with
  | none => rfl
  | some behind =>
      simp only [Option.map_some, Option.bind_eq_bind, Option.bind_some,
        Text.startsInName_append_cons_of_isBlank (CodeUnit.isBlank_of_isLineEnd ends)]
      split <;> rfl

/-- A line end is no part of a foreign word and stands apart from it. -/
theorem wholeWord_partedBy {unit : CodeUnit} (ends : unit.isLineEnd = true) :
    wholeWord.PartedBy unit where
  ahead := by
    intro before front rest
    unfold wholeWord
    split
    · rfl
    · rw [List.map_findSome?]
      congr 1
      funext word
      exact afterWord?_append_cons ends front rest word
  behind := by
    intro front before rest
    unfold wholeWord
    rw [Text.endsInName_append_cons_of_isBlank (CodeUnit.isBlank_of_isLineEnd ends)]

end ForeignOperator

/-! ## Lines and quotation marks -/

theorem BlockBalance.closingCount_eq_countP (source : Text) :
    closingCount source = (Text.splitWhere CodeUnit.isLineEnd source).countP isClosing := by
  have words : (closingCount source) = (closingWordsFrom 0 source).length := by
    rw [closingCount, ← List.length_map wordOffset, Pattern.occurrences, map_wordOffset_scanFrom]
    rfl
  rw [words, closingWordsFrom, closingWords, List.length_map, ← List.countP_eq_length_filter]
  nth_rewrite 2 [← Text.map_snd_placedFrom 0 (Text.splitWhere CodeUnit.isLineEnd source)]
  rw [List.countP_map]
  rfl

/-- A closing line lies on one side of a line end. -/
theorem BlockBalance.closingCount_append_cons {unit : CodeUnit} (ends : unit.isLineEnd = true)
    (front back : Text) :
    closingCount (front ++ unit :: back) = closingCount front + closingCount back := by
  simp only [closingCount_eq_countP, Text.splitWhere_append_of_separates ends, List.countP_append]

theorem IndentConsistency.remainders_append_lineFeed (front back : Text) :
    remainders (front ++ CodeUnit.lineFeed :: back) = remainders front ++ remainders back := by
  have sameLines : Text.lines (front ++ CodeUnit.lineFeed :: back) =
      Text.lines front ++ Text.lines back := by
    apply Text.splitWhere_append_of_separates
    rfl
  unfold remainders
  rw [sameLines, List.filter_append, List.map_append]

theorem QuoteBalance.quoteCount_append_cons {unit : CodeUnit} (plain : isQuote unit = false)
    (front back : Text) :
    quoteCount (front ++ unit :: back) = quoteCount front + quoteCount back := by
  unfold quoteCount
  rw [List.countP_append, List.countP_cons_of_neg (by simp [plain])]

theorem QuoteBalance.findings_eq_nil_iff {source : Text} :
    findings source = [] ↔ quoteCount source % 2 = 0 := by
  unfold findings
  split
  · next balanced => exact iff_of_true rfl balanced
  · next unbalanced => exact iff_of_false (List.cons_ne_nil _ _) unbalanced

/--
Joining two texts by a line feed joins what is found in them.  The closing lines
add up, the indentation remainders and the numeric conversions of the first text
are followed by those of the second, a foreign word is found in the whole exactly
if it is found in one of the parts, and the quotation marks are unbalanced exactly
if they are so in one part but not in the other.
-/
theorem findings_join_at_lineFeed (front back : Text) :
    let joined := front ++ CodeUnit.lineFeed :: back
    BlockBalance.closingCount joined =
        BlockBalance.closingCount front + BlockBalance.closingCount back ∧
      IndentConsistency.remainders joined =
        IndentConsistency.remainders front ++ IndentConsistency.remainders back ∧
      (RedundantConversion.call.occurrences joined).map Occurrence.matched =
        (RedundantConversion.call.occurrences front).map Occurrence.matched ++
          (RedundantConversion.call.occurrences back).map Occurrence.matched ∧
      { word | word ∈ (ForeignOperator.wholeWord.occurrences joined).map Occurrence.capture } =
        { word | word ∈ (ForeignOperator.wholeWord.occurrences front).map Occurrence.capture } ∪
          { word | word ∈ (ForeignOperator.wholeWord.occurrences back).map Occurrence.capture } ∧
      (Rule.quoteBalance.findings joined ≠ [] ↔
        Rule.quoteBalance.findings front ≠ [] ∧ Rule.quoteBalance.findings back = [] ∨
          Rule.quoteBalance.findings front = [] ∧ Rule.quoteBalance.findings back ≠ []) := by
  have ends : CodeUnit.lineFeed.isLineEnd = true := by decide
  refine ⟨BlockBalance.closingCount_append_cons ends front back,
    IndentConsistency.remainders_append_lineFeed front back, ?_, ?_, ?_⟩
  · simp only [Pattern.map_matched_occurrences]
    rw [Pattern.readings_append_cons RedundantConversion.call_advances
      (RedundantConversion.call_partedBy ends), List.map_append]
  · ext word
    simp only [Pattern.map_capture_occurrences]
    rw [Pattern.readings_append_cons ForeignOperator.wholeWord_advances
      (ForeignOperator.wholeWord_partedBy ends), List.map_append]
    exact List.mem_append
  · have sum := QuoteBalance.quoteCount_append_cons
      (show QuoteBalance.isQuote CodeUnit.lineFeed = false from rfl) front back
    simp only [Rule.findings, ne_eq, QuoteBalance.findings_eq_nil_iff, sum]
    omega

end JuliaLint

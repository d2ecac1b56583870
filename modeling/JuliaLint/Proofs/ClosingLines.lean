import JuliaLint.Proofs.MembershipReading
import JuliaLint.Proofs.Pieces
import JuliaLint.Rule.BlockBalance

namespace JuliaLint

/-!
# Closing lines, counted

The pattern for a closing line lets blank space run across line ends on both
sides of `end`, so its matches are not lines: one match may take blank lines in
front of the word and behind it, and the other half of a line end.  Still there
is one match for every line that holds only `end`, and no other.

Between two matches the scan stands either at the start of a line, and then all
lines ahead are awaited, or inside of a line, and then this line is lost.  A
match ends where a line ends, so the line in which it leaves the scan is empty
from there on and nothing is lost with it.
-/

/-! ## Trimming -/

namespace Text

theorem trim_append_of_blank_left {front : Text} (blank : isBlank front = true) (text : Text) :
    trim (front ++ text) = trim text := by
  rw [trim, skipBlanks_append_of_blank blank, trim]

theorem trim_append_of_blank_right {back : Text} (blank : isBlank back = true) (text : Text) :
    trim (text ++ back) = trim text := by
  have backwards : isBlank back.reverse = true := by
    rw [isBlank, List.all_reverse]
    exact blank
  cases textBlank : isBlank text with
  | true =>
      have nothing : trim back = [] := trim_eq_nil_iff.mpr blank
      rw [trim_append_of_blank_left textBlank, nothing, trim_eq_nil_iff.mpr textBlank]
  | false =>
      rw [trim, skipBlanks_append_of_not_blank textBlank, List.reverse_append,
        skipBlanks_append_of_blank backwards, trim]

/-- What trimming takes away is blank. -/
theorem exists_eq_append_trim (text : Text) :
    ∃ front back, isBlank front = true ∧ isBlank back = true ∧
      text = front ++ (trim text ++ back) := by
  refine ⟨leadingBlanks text, (leadingBlanks (skipBlanks text).reverse).reverse,
    isBlank_leadingBlanks text, ?_, ?_⟩
  · rw [isBlank, List.all_reverse]
    exact isBlank_leadingBlanks _
  · rw [trim, ← List.reverse_append, leadingBlanks_append_skipBlanks, List.reverse_reverse,
      leadingBlanks_append_skipBlanks]

end Text

namespace BlockBalance

/-! ## Lines that hold only `end` -/

/-- Whether a line is `end` once it is trimmed. -/
def isClosing (line : Text) : Bool :=
  Text.trim line == Text.ofString "end"

/-- The offsets of the word `end` in the closing lines among the given ones. -/
def closingWords (lines : List (Nat × Text)) : List Nat :=
  (lines.filter fun line => isClosing line.2).map fun line =>
    line.1 + (Text.leadingBlanks line.2).length

theorem isClosing_iff {line : Text} :
    isClosing line = true ↔ ∃ front back, Text.isBlank front = true ∧ Text.isBlank back = true ∧
      line = front ++ ("end" ++ back) := by
  rw [isClosing, beq_iff_eq]
  constructor
  · intro closing
    have split := Text.exists_eq_append_trim line
    rwa [closing] at split
  · rintro ⟨front, back, frontBlank, backBlank, rfl⟩
    rw [Text.trim_append_of_blank_left frontBlank, Text.trim_append_of_blank_right backBlank]
    rfl

theorem isClosing_of_isBlank {line : Text} (blank : Text.isBlank line = true) :
    isClosing line = false := by
  rw [isClosing, Text.trim_eq_nil_iff.mpr blank]
  rfl

theorem closingWords_cons_of_isBlank {line : Text} (blank : Text.isBlank line = true)
    (offset : Nat) (lines : List (Nat × Text)) :
    closingWords ((offset, line) :: lines) = closingWords lines := by
  rw [closingWords, List.filter_cons_of_neg (by simp [isClosing_of_isBlank blank]), closingWords]

theorem closingWords_cons_of_isClosing {line : Text} (closing : isClosing line = true)
    (offset : Nat) (lines : List (Nat × Text)) :
    closingWords ((offset, line) :: lines) =
      (offset + (Text.leadingBlanks line).length) :: closingWords lines := by
  rw [closingWords, List.filter_cons_of_pos (by simpa using closing), List.map_cons, closingWords]

/-- The closing words of a text that starts at the given offset. -/
def closingWordsFrom (offset : Nat) (text : Text) : List Nat :=
  closingWords (Text.placedFrom offset (Text.splitWhere CodeUnit.isLineEnd text))

/-- A blank unit makes no difference: it ends an empty line or indents one. -/
theorem closingWordsFrom_cons_of_isBlank {unit : CodeUnit} (blank : unit.isBlank = true)
    (offset : Nat) (text : Text) :
    closingWordsFrom offset (unit :: text) = closingWordsFrom (offset + 1) text := by
  unfold closingWordsFrom
  cases ends : unit.isLineEnd with
  | true =>
      rw [Text.splitWhere_cons_of_separates ends, Text.placedFrom,
        closingWords_cons_of_isBlank rfl]
      rfl
  | false =>
      rcases List.exists_cons_of_ne_nil (Text.splitWhere_ne_nil CodeUnit.isLineEnd text) with
        ⟨line, lines, split⟩
      have unitBlank : Text.isBlank [unit] = true := by
        simpa [Text.isBlank] using blank
      have trimmed : isClosing (unit :: line) = isClosing line := by
        rw [isClosing, ← List.singleton_append, Text.trim_append_of_blank_left unitBlank, isClosing]
      have indented : offset + (Text.leadingBlanks (unit :: line)).length =
          offset + 1 + (Text.leadingBlanks line).length := by
        rw [Text.leadingBlanks, List.takeWhile_cons_of_pos blank, List.length_cons,
          Text.leadingBlanks]
        omega
      have behind : offset + (unit :: line).length + 1 = offset + 1 + line.length + 1 := by
        rw [List.length_cons]
        omega
      rw [Text.splitWhere_cons_of_inner ends split, split, Text.placedFrom, Text.placedFrom, behind]
      unfold closingWords
      rw [List.filter_cons, List.filter_cons, trimmed]
      split
      · rw [List.map_cons, List.map_cons, indented]
      · rfl

theorem closingWordsFrom_append_of_isBlank {front : Text} (blank : Text.isBlank front = true)
    (offset : Nat) (text : Text) :
    closingWordsFrom offset (front ++ text) = closingWordsFrom (offset + front.length) text := by
  induction front generalizing offset with
  | nil => rfl
  | cons unit front ih =>
      have blanks : unit.isBlank = true ∧ Text.isBlank front = true := by
        simpa [Text.isBlank] using blank
      rw [List.cons_append, closingWordsFrom_cons_of_isBlank blanks.1, ih blanks.2,
        List.length_cons, Nat.add_right_comm, Nat.add_assoc]

/-- Where a line ends, nothing but blank space is left of it. -/
theorem exists_blank_line {back rest : Text} (blank : Text.isBlank back = true)
    (ends : endsLine rest = true) :
    ∃ line lines, Text.splitWhere CodeUnit.isLineEnd (back ++ rest) = line :: lines ∧
      Text.isBlank line = true := by
  induction back with
  | nil =>
      cases rest with
      | nil => exact ⟨[], [], rfl, rfl⟩
      | cons unit rest => exact ⟨[], _, Text.splitWhere_cons_of_separates ends rest, rfl⟩
  | cons unit back ih =>
      have blanks : unit.isBlank = true ∧ Text.isBlank back = true := by
        simpa [Text.isBlank] using blank
      cases unitEnds : unit.isLineEnd with
      | true => exact ⟨[], _, Text.splitWhere_cons_of_separates unitEnds _, rfl⟩
      | false =>
          rcases ih blanks.2 with ⟨line, lines, split, lineBlank⟩
          refine ⟨unit :: line, lines, Text.splitWhere_cons_of_inner unitEnds split, ?_⟩
          simpa [Text.isBlank, blanks.1] using lineBlank

/-- The word of a closing line comes first, and then those behind the line. -/
theorem closingWordsFrom_end {back rest : Text} (blank : Text.isBlank back = true)
    (ends : endsLine rest = true) (offset : Nat) :
    closingWordsFrom offset ("end" ++ (back ++ rest)) =
      offset :: closingWordsFrom (offset + 3 + back.length) rest := by
  rcases exists_blank_line blank ends with ⟨line, lines, split, lineBlank⟩
  have wordInner : ∀ unit ∈ Text.ofString "end", unit.isLineEnd = false := by
    have noneEnds : (Text.ofString "end").all (fun unit => !unit.isLineEnd) = true := by decide
    intro unit member
    simpa using List.all_eq_true.mp noneEnds unit member
  have closing : isClosing ("end" ++ line) = true :=
    isClosing_iff.mpr ⟨[], line, rfl, lineBlank, rfl⟩
  have behind := closingWordsFrom_append_of_isBlank blank (offset + 3) rest
  rw [closingWordsFrom, split, Text.placedFrom, closingWords_cons_of_isBlank lineBlank] at behind
  have lineLength : offset + (Text.ofString "end" ++ line).length + 1 =
      offset + 3 + line.length + 1 := by
    have wordLength : (Text.ofString "end").length = 3 := rfl
    rw [List.length_append, wordLength]
    omega
  rw [closingWordsFrom, Text.splitWhere_append wordInner split, Text.placedFrom,
    closingWords_cons_of_isClosing closing, lineLength, behind]
  rfl

/-! ## Matches -/

theorem eq_append_of_closingLine {before ahead rest : Text}
    (found : closingLine before ahead = some ((), rest)) :
    startsLine before = true ∧ endsLine rest = true ∧
      ∃ front back, Text.isBlank front = true ∧ Text.isBlank back = true ∧
        ahead = front ++ ("end" ++ (back ++ rest)) := by
  unfold closingLine at found
  split at found
  · next starts =>
    rcases Option.bind_eq_some_iff.mp found with ⟨behind, wordRead, found⟩
    rcases Option.bind_eq_some_iff.mp found with ⟨stop, skipped, same⟩
    cases same
    rcases Text.eq_append_of_skipMostBlanks? skipped with ⟨back, tail, backBlank, rfl, attempted⟩
    split at attempted
    · next ends =>
      cases attempted
      refine ⟨starts, ends, Text.leadingBlanks ahead, back, Text.isBlank_leadingBlanks ahead,
        backBlank, ?_⟩
      rw [← Text.after?_eq_some_iff.mp wordRead, Text.leadingBlanks_append_skipBlanks]
    · cases attempted
  · cases found

/-- What stands between two line ends is read if it is a closing line. -/
theorem isSome_closingLine {before front back rest : Text} (starts : startsLine before = true)
    (frontBlank : Text.isBlank front = true) (backBlank : Text.isBlank back = true)
    (ends : endsLine rest = true) :
    (closingLine before (front ++ ("end" ++ (back ++ rest)))).isSome = true := by
  have skipped : Text.skipBlanks (front ++ ("end" ++ (back ++ rest))) = "end" ++ (back ++ rest) :=
    Text.skipBlanks_append_of_blank frontBlank _
  have wordRead : Text.after? "end" ("end" ++ (back ++ rest)) = some (back ++ rest) :=
    Text.after?_eq_some_iff.mpr rfl
  have closes : (Text.skipMostBlanks? (fun rest => if endsLine rest then some rest else none)
      (back ++ rest)).isSome = true := by
    apply isSome_largest?_iff.mpr
    refine ⟨back.length, ?_, ?_⟩
    · rw [Text.leadingBlanks_append_of_blank backBlank, List.length_append]
      omega
    · simp only [List.drop_left, ends, if_true, Option.isSome_some]
  rcases Option.isSome_iff_exists.mp closes with ⟨stop, found⟩
  rw [closingLine, if_pos starts, skipped]
  simp only [wordRead, found, Option.bind_eq_bind, Option.bind_some]
  rfl

theorem closingLine_advances : closingLine.Advances := by
  intro before ahead capture rest found
  rcases eq_append_of_closingLine found with ⟨_, _, front, back, _, _, rfl⟩
  refine ⟨front ++ ("end" ++ back), ?_, ?_⟩
  · intro nothing
    cases (List.append_eq_nil_iff.mp nothing).2
  · simp only [List.append_assoc]

/-- Where the word `end` of a match stands. -/
def wordOffset (occurrence : Occurrence Unit) : Nat :=
  occurrence.start + (Text.leadingBlanks occurrence.matched).length

theorem leadingBlanks_append_end {front : Text} (blank : Text.isBlank front = true)
    (text : Text) : Text.leadingBlanks (front ++ ("end" ++ text)) = front := by
  have filled : Text.leadingBlanks ("end" ++ text) = [] := rfl
  rw [Text.leadingBlanks_append_of_blank blank, filled, List.append_nil]

/-! ## The scan -/

/-- The lines that a scan has ahead of it; one that has begun is not among them. -/
def linesAhead (before ahead : Text) : List (Nat × Text) :=
  let lines := Text.placedFrom before.length (Text.splitWhere CodeUnit.isLineEnd ahead)
  if startsLine before then lines else lines.tail

/-- No line is lost where one ends. -/
theorem closingWords_linesAhead_of_endsLine {ahead : Text} (ends : endsLine ahead = true)
    (before : Text) :
    closingWords (linesAhead before ahead) = closingWordsFrom before.length ahead := by
  rcases exists_blank_line (show Text.isBlank [] = true from rfl) ends with
    ⟨line, lines, split, lineBlank⟩
  rw [List.nil_append] at split
  unfold linesAhead closingWordsFrom
  rw [split, Text.placedFrom]
  split
  · rfl
  · rw [closingWords_cons_of_isBlank lineBlank, List.tail_cons]

/-- A line at which the pattern refuses is no closing line. -/
theorem isClosing_of_refused {before ahead line : Text} {lines : List Text}
    (starts : startsLine before = true) (refused : closingLine before ahead = none)
    (split : Text.splitWhere CodeUnit.isLineEnd ahead = line :: lines) :
    isClosing line = false := by
  apply Bool.eq_false_iff.mpr
  intro closing
  rcases isClosing_iff.mp closing with ⟨front, back, frontBlank, backBlank, rfl⟩
  have accepted : (closingLine before ahead).isSome = true := by
    rcases Text.eq_append_of_splitWhere split with ⟨_, rfl⟩ | ⟨unit, rest, ends, rfl, _⟩
    · have read := isSome_closingLine starts frontBlank backBlank (show endsLine [] = true from rfl)
      rwa [List.append_nil] at read
    · have read := isSome_closingLine starts frontBlank backBlank
        (show endsLine (unit :: rest) = true from ends)
      simpa only [List.append_assoc] using read
  rw [refused] at accepted
  cases accepted

/-- A scan finds the closing words of the lines that it has ahead of it. -/
theorem map_wordOffset_scanFrom (before ahead : Text) :
    (Pattern.scanFrom closingLine before 0 ahead).map wordOffset =
      closingWords (linesAhead before ahead) := by
  induction before, ahead using Pattern.walk_induction closingLine_advances with
  | finished before =>
      rw [closingWords_linesAhead_of_endsLine rfl]
      rfl
  | refused before unit ahead outcome ih =>
      rw [Pattern.scanFrom_of_refused outcome, ih]
      cases ends : unit.isLineEnd with
      | true =>
          rw [closingWords_linesAhead_of_endsLine (show endsLine (unit :: ahead) = true from ends),
            closingWordsFrom_cons_of_isBlank (CodeUnit.isBlank_of_isLineEnd ends), linesAhead,
            if_pos (show startsLine (unit :: before) = true from ends)]
          rfl
      | false =>
          rcases List.exists_cons_of_ne_nil (Text.splitWhere_ne_nil CodeUnit.isLineEnd ahead) with
            ⟨line, lines, split⟩
          have longer : Text.splitWhere CodeUnit.isLineEnd (unit :: ahead) =
              (unit :: line) :: lines :=
            Text.splitWhere_cons_of_inner ends split
          have lost : linesAhead (unit :: before) ahead =
              Text.placedFrom (before.length + (unit :: line).length + 1) lines := by
            have begun : startsLine (unit :: before) = false := ends
            simp only [linesAhead, begun, split, Text.placedFrom, List.length_cons]
            rw [if_neg Bool.false_ne_true, List.tail_cons, Nat.add_right_comm before.length,
              ← Nat.add_assoc]
          rw [lost, linesAhead, longer, Text.placedFrom]
          split
          · next starts =>
            have notClosing := isClosing_of_refused starts outcome longer
            rw [closingWords, closingWords, List.filter_cons_of_neg (by simp [notClosing])]
          · rfl
  | accepted before matched capture rest nonempty outcome ih =>
      rcases eq_append_of_closingLine outcome with
        ⟨starts, ends, front, back, frontBlank, backBlank, split⟩
      obtain rfl : matched = front ++ ("end" ++ back) := by
        apply List.append_cancel_right
        rw [split]
        simp only [List.append_assoc]
      have offsets : before.length + front.length + 3 + back.length =
          ((front ++ ("end" ++ back)).reverse ++ before).length := by
        have wordLength : (Text.ofString "end").length = 3 := rfl
        simp only [List.length_append, List.length_reverse, wordLength]
        omega
      have awaited : closingWords (linesAhead before (front ++ ("end" ++ back) ++ rest)) =
          closingWordsFrom before.length (front ++ ("end" ++ (back ++ rest))) := by
        rw [linesAhead, if_pos starts, List.append_assoc, List.append_assoc]
        rfl
      rw [Pattern.scanFrom_of_accepted nonempty outcome, List.map_cons, ih, awaited,
        closingWordsFrom_append_of_isBlank frontBlank, closingWordsFrom_end backBlank ends,
        closingWords_linesAhead_of_endsLine ends, offsets, wordOffset,
        leadingBlanks_append_end frontBlank]

/--
The matches for closing lines are the lines that hold only `end`, where every
line feed, carriage return and line or paragraph separator ends a line.  They
come in the same order and at the same words, so no line is missed or counted
twice, and their numbers agree.
-/
theorem closingCount_eq_countP_lines (source : Text) :
    closingCount source =
        (Text.splitWhere CodeUnit.isLineEnd source).countP (fun line =>
          Text.trim line == Text.ofString "end") ∧
      (closingLine.occurrences source).map (fun occurrence =>
          occurrence.start + (Text.leadingBlanks occurrence.matched).length) =
        ((Text.placedPieces CodeUnit.isLineEnd source).filter fun line =>
            Text.trim line.2 == Text.ofString "end").map fun line =>
          line.1 + (Text.leadingBlanks line.2).length := by
  have words : (closingLine.occurrences source).map wordOffset =
      closingWords (Text.placedPieces CodeUnit.isLineEnd source) :=
    map_wordOffset_scanFrom [] source
  refine ⟨?_, words⟩
  have counted := congrArg List.length words
  rw [List.length_map, closingWords, List.length_map, ← List.countP_eq_length_filter] at counted
  have lines := Text.map_snd_placedFrom 0 (Text.splitWhere CodeUnit.isLineEnd source)
  rw [closingCount, counted, ← lines, List.countP_map]
  rfl

/-- The first match takes the carriage return, and the second one starts at the line feed. -/
example : (closingLine.occurrences "\n end\r\nend").map wordOffset = [2, 7] := by decide

end BlockBalance
end JuliaLint

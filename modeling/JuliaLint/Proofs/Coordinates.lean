import Mathlib.Algebra.Ring.Nat
import Mathlib.Data.Int.ConditionallyCompleteOrder
import Mathlib.Data.List.Induction
import Mathlib.Data.Prod.Lex
import Mathlib.Order.ConditionallyCompleteLattice.Basic
import JuliaLint.Proofs.Pieces
import JuliaLint.Text.Position

namespace JuliaLint
namespace Text

/-!
# Offsets against lines and columns

A position is computed from the text in front of its offset alone: the line from
a count of line feeds, the column from the units behind the last of them.  Split
into lines, the text in front consists of whole lines and of a last one that the
rest of the text completes.  So the position names a line of the whole text and
a column inside that line, and the offset is the start of that line with the
column added.

Line starts leave room for every column of the lines in front of them.  Hence an
offset has only one such form, and offsets are ordered like their lines and
columns.

The text in front may end inside a surrogate pair.  Counting its lines character
by character makes no difference, because a line feed is a character of its own,
and the column is the distance from the place of the last line feed, which is
`-1` on the first line.
-/

/-- The units in front of a line: the lines before it, with one line feed for each. -/
def lineStart (text : Text) (index : Nat) : Nat :=
  (((lines text).take index).map fun line => line.length + 1).sum

/-- Line and column of an offset, compared by line first. -/
def coordinatesAt (text : Text) (offset : Int) : Nat ×ₗ Nat :=
  toLex ((text.positionAt offset).line, (text.positionAt offset).column)

/-- The lines and columns of a text; the column behind the last unit of a line is one of them. -/
def coordinates (text : Text) : Set (Nat ×ₗ Nat) :=
  {place | ∃ (line column : Nat) (content : Text), place = toLex (line, column) ∧ 1 ≤ line ∧
    (lines text)[line - 1]? = some content ∧ 1 ≤ column ∧ column ≤ content.length + 1}

/-- The last place at which a unit stands in a text, or `-1` if it does not. -/
def lastIndexOf (unit : CodeUnit) : Text → Int
  | [] => -1
  | first :: text =>
      if 0 ≤ lastIndexOf unit text then
        lastIndexOf unit text + 1
      else if first = unit then
        0
      else
        -1

/-- The line that is reached when the characters of a text are read one by one. -/
def lineBehind (text : Text) : Nat :=
  (characters text).foldl
    (fun line character? => if character? = some '\n' then line + 1 else line) 1

/-! ## Line starts -/

section LineStarts

variable {text content : Text} {index : Nat}

theorem lineStart_succ (found : (lines text)[index]? = some content) :
    text.lineStart (index + 1) = text.lineStart index + content.length + 1 := by
  unfold lineStart
  rw [List.take_add_one, found, List.map_append, List.sum_append]
  simp [Nat.add_assoc]

theorem lineStart_mono {later : Nat} (behind : index ≤ later) :
    text.lineStart index ≤ text.lineStart later := by
  rcases Nat.exists_eq_add_of_le behind with ⟨count, rfl⟩
  unfold lineStart
  rw [List.take_add, List.map_append, List.sum_append]
  exact Nat.le_add_right _ _

/-- Every column of a line lies in front of the lines behind it. -/
theorem lineStart_add_lt {later column : Nat} (found : (lines text)[index]? = some content)
    (within : column ≤ content.length) (behind : index < later) :
    text.lineStart index + column < text.lineStart later := by
  have next := lineStart_succ found
  have further : text.lineStart (index + 1) ≤ text.lineStart later := lineStart_mono behind
  omega

end LineStarts

/-- Lines and columns are ordered like the offsets that they stand for. -/
theorem toLex_lt_toLex_iff {text first second : Text} {index later column other : Nat}
    (found : (lines text)[index]? = some first) (within : column ≤ first.length)
    (otherFound : (lines text)[later]? = some second) (otherWithin : other ≤ second.length) :
    toLex (index + 1, column + 1) < toLex (later + 1, other + 1) ↔
      text.lineStart index + column < text.lineStart later + other := by
  rw [Prod.Lex.toLex_lt_toLex]
  rcases Nat.lt_trichotomy index later with before | rfl | behind
  · have earlier := lineStart_add_lt found within before
    exact iff_of_true (Or.inl (Nat.succ_lt_succ before)) (by omega)
  · simp
  · have earlier := lineStart_add_lt otherFound otherWithin behind
    refine iff_of_false ?_ (by omega)
    rintro (before | ⟨same, _⟩)
    · omega
    · omega

/-! ## The text in front of an offset -/

/-- The line feeds of a text count its whole lines, and the units behind the last
line feed make up its last line. -/
theorem exists_lines_eq (text : Text) :
    ∃ (whole : List Text) (last : Text), lines text = whole ++ [last] ∧
      whole.length = text.count CodeUnit.lineFeed ∧
      last.length = (text.reverse.takeWhile (· ≠ CodeUnit.lineFeed)).length ∧
      text.length = (whole.map fun line => line.length + 1).sum + last.length := by
  induction text using List.reverseRecOn with
  | nil => exact ⟨[], [], rfl, rfl, rfl, rfl⟩
  | append_singleton text unit ih =>
      rcases ih with ⟨whole, last, split, count, column, length⟩
      by_cases feed : unit = CodeUnit.lineFeed
      · subst feed
        refine ⟨whole ++ [last], [], ?_, ?_, ?_, ?_⟩
        · rw [lines, splitWhere_append_of_separates rfl]
          exact congrArg (· ++ [[]]) split
        · simp [count]
        · simp
        · simp [length]
          omega
      · have concat : ∃ others piece, lines text = others ++ [piece] ∧
            lines (text ++ [unit]) = others ++ [piece ++ [unit]] := by
          apply splitWhere_concat_of_inner
          exact beq_false_of_ne feed
        rcases concat with ⟨others, piece, sameSplit, longer⟩
        rcases List.append_inj' (split.symm.trans sameSplit) rfl with ⟨rfl, same⟩
        cases same
        refine ⟨whole, last ++ [unit], longer, ?_, ?_, ?_⟩
        · simp [count, feed]
        · simp [column, feed]
        · simp [length]
          omega

theorem lineStart_length (text : Text) : text.lineStart (lines text).length = text.length + 1 := by
  rcases exists_lines_eq text with ⟨whole, last, split, _, _, length⟩
  unfold lineStart
  rw [List.take_length, split, length, List.map_append, List.sum_append]
  simp [Nat.add_assoc]

/-- A line ends inside the text. -/
theorem lineStart_add_le_length {text content : Text} {index : Nat}
    (found : (lines text)[index]? = some content) :
    text.lineStart index + content.length ≤ text.length := by
  rcases List.getElem?_eq_some_iff.mp found with ⟨inside, _⟩
  have before := lineStart_add_lt found (Nat.le_refl _) inside
  rw [lineStart_length] at before
  omega

/-! ## A position as two scans of the text in front -/

theorem lastIndexOf_concat (unit last : CodeUnit) (text : Text) :
    lastIndexOf unit (text ++ [last]) =
      if last = unit then (text.length : Int) else lastIndexOf unit text := by
  induction text with
  | nil => simp [lastIndexOf]
  | cons first text ih =>
      rw [List.cons_append, lastIndexOf, ih]
      split
      · rw [if_pos (Int.natCast_nonneg _), List.length_cons, Int.natCast_succ]
      · rfl

/-- The units behind the last line feed are those between its place and the end. -/
theorem length_takeWhile_eq_sub_lastIndexOf (text : Text) :
    (((text.reverse.takeWhile (· ≠ CodeUnit.lineFeed)).length + 1 : Nat) : Int) =
      text.length - lastIndexOf CodeUnit.lineFeed text := by
  induction text using List.reverseRecOn with
  | nil => rfl
  | append_singleton text unit ih =>
      rw [lastIndexOf_concat, List.reverse_concat, List.length_append, List.length_singleton]
      by_cases feed : unit = CodeUnit.lineFeed
      · rw [if_pos feed, List.takeWhile_cons_of_neg (by simpa using feed)]
        simp
      · rw [if_neg feed, List.takeWhile_cons_of_pos (by simpa using feed), List.length_cons]
        omega

theorem eq_of_ofNat_eq_newline {number : Nat} (same : Char.ofNat number = '\n') :
    number = 10 := by
  by_cases valid : number.isValidChar
  · have known : (Char.ofNat number).toNat = number := by
      rw [Char.ofNat, dif_pos valid]
      rfl
    rw [← known, same]
    rfl
  · have replaced : Char.ofNat number = Char.ofNat 0 := by
      rw [Char.ofNat, dif_neg valid]
      rfl
    exact absurd (replaced.symm.trans same) (by decide)

theorem unitChar?_eq_newline_iff {unit : CodeUnit} :
    unitChar? unit = some '\n' ↔ unit = CodeUnit.lineFeed := by
  constructor
  · intro read
    unfold unitChar? at read
    split at read
    · cases read
    · exact UInt16.toNat.inj (eq_of_ofNat_eq_newline (Option.some.inj read))
  · rintro rfl
    rfl

/-- A line feed is a character of its own, so characters count the same lines as units. -/
theorem lineBehind_eq_count (text : Text) :
    lineBehind text = text.count CodeUnit.lineFeed + 1 := by
  have fromLine : ∀ line, (characters text).foldl
      (fun line character? => if character? = some '\n' then line + 1 else line) line =
        text.count CodeUnit.lineFeed + line := by
    fun_induction characters text with
    | case1 => simp
    | case2 unit =>
        intro line
        rw [List.foldl_cons, List.foldl_nil, List.count_singleton]
        simp only [unitChar?_eq_newline_iff, beq_iff_eq]
        split <;> omega
    | case3 first second text isPair ih =>
        intro line
        rcases Bool.and_eq_true_iff.mp isPair with ⟨lead, trail⟩
        have notRead : some (Char.ofNat (CodeUnit.pairCodePoint first second)) ≠ some '\n' := by
          intro same
          have small := eq_of_ofNat_eq_newline (Option.some.inj same)
          unfold CodeUnit.pairCodePoint at small
          omega
        have firstOther : first ≠ CodeUnit.lineFeed := by
          rintro rfl
          exact absurd lead (by decide)
        have secondOther : second ≠ CodeUnit.lineFeed := by
          rintro rfl
          exact absurd trail (by decide)
        rw [List.foldl_cons, if_neg notRead, ih, List.count_cons_of_ne firstOther,
          List.count_cons_of_ne secondOther]
    | case4 first second text notPair ih =>
        intro line
        rw [List.foldl_cons, ih, List.count_cons (l := second :: text)]
        simp only [unitChar?_eq_newline_iff, beq_iff_eq]
        split <;> omega
  exact fromLine 1

/-- The line is counted character by character, and the column from the last line feed. -/
theorem positionAt_eq_scans (text : Text) (offset : Int) :
    (text.positionAt offset).line = lineBehind (text.take (text.positionAt offset).offset) ∧
      ((text.positionAt offset).column : Int) =
        (text.positionAt offset).offset -
          lastIndexOf CodeUnit.lineFeed (text.take (text.positionAt offset).offset) := by
  have inside := clamp_le_length text offset
  have column := length_takeWhile_eq_sub_lastIndexOf (text.take (text.clamp offset))
  rw [List.length_take, Nat.min_eq_left inside] at column
  exact ⟨(lineBehind_eq_count _).symm, column⟩

/-! ## The position of an offset -/

/-- A position names a line and one of its columns, from which its offset can be told. -/
theorem positionAt_spec (text : Text) (offset : Int) :
    ∃ (index column : Nat) (content : Text),
      text.positionAt offset = ⟨index + 1, column + 1, text.clamp offset⟩ ∧
        (lines text)[index]? = some content ∧ column ≤ content.length ∧
        text.clamp offset = text.lineStart index + column := by
  have inside := clamp_le_length text offset
  rcases exists_lines_eq (text.take (text.clamp offset)) with
    ⟨whole, last, split, count, column, length⟩
  rcases List.exists_cons_of_ne_nil
    (splitWhere_ne_nil (fun unit => unit == CodeUnit.lineFeed) (text.drop (text.clamp offset))) with
    ⟨completion, others, restSplit⟩
  have wholeSplit : lines text = whole ++ (last ++ completion) :: others := by
    have joined := splitWhere_append_pieces split restSplit
    rwa [List.take_append_drop] at joined
  refine ⟨whole.length, last.length, last ++ completion, ?_, ?_, ?_, ?_⟩
  · rw [count, column]
    rfl
  · rw [wholeSplit, List.getElem?_append_right (Nat.le_refl _), Nat.sub_self]
    rfl
  · rw [List.length_append]
    exact Nat.le_add_right _ _
  · rw [List.length_take, Nat.min_eq_left inside] at length
    rw [lineStart, wholeSplit, List.take_left, ← length]

/-- Inside the text the offset of a position is the given one. -/
theorem clamp_of_mem_Icc {text : Text} {offset : Int}
    (inside : offset ∈ Set.Icc 0 (text.length : Int)) : (text.clamp offset : Int) = offset := by
  rcases inside with ⟨nonnegative, atMost⟩
  unfold clamp
  omega

theorem strictMonoOn_coordinatesAt (text : Text) :
    StrictMonoOn text.coordinatesAt (Set.Icc 0 (text.length : Int)) := by
  intro first firstInside second secondInside before
  rcases positionAt_spec text first with
    ⟨index, column, content, position, found, within, offset⟩
  rcases positionAt_spec text second with
    ⟨later, other, otherContent, otherPosition, otherFound, otherWithin, otherOffset⟩
  have firstClamp := clamp_of_mem_Icc firstInside
  have secondClamp := clamp_of_mem_Icc secondInside
  rw [coordinatesAt, coordinatesAt, position, otherPosition,
    toLex_lt_toLex_iff found within otherFound otherWithin]
  omega

theorem mapsTo_coordinatesAt (text : Text) :
    Set.MapsTo text.coordinatesAt (Set.Icc 0 (text.length : Int)) text.coordinates := by
  intro offset _
  rcases positionAt_spec text offset with ⟨index, column, content, position, found, within, _⟩
  refine ⟨index + 1, column + 1, content, ?_, Nat.succ_pos _, found, Nat.succ_pos _,
    Nat.succ_le_succ within⟩
  rw [coordinatesAt, position]

theorem surjOn_coordinatesAt (text : Text) :
    Set.SurjOn text.coordinatesAt (Set.Icc 0 (text.length : Int)) text.coordinates := by
  rintro _ ⟨line, column, content, rfl, lineStarts, found, columnStarts, within⟩
  rcases Nat.exists_eq_add_of_le' lineStarts with ⟨index, rfl⟩
  rcases Nat.exists_eq_add_of_le' columnStarts with ⟨width, rfl⟩
  rw [Nat.add_sub_cancel] at found
  have widthWithin : width ≤ content.length := Nat.le_of_succ_le_succ within
  have lineWithin := lineStart_add_le_length found
  have inside : ((text.lineStart index + width : Nat) : Int) ∈ Set.Icc 0 (text.length : Int) :=
    ⟨by omega, by omega⟩
  refine ⟨_, inside, ?_⟩
  rcases positionAt_spec text (text.lineStart index + width : Nat) with
    ⟨otherIndex, otherWidth, otherContent, position, otherFound, otherWithin, offset⟩
  have sameClamp := clamp_of_mem_Icc inside
  rw [coordinatesAt, position]
  rcases lt_trichotomy (toLex (otherIndex + 1, otherWidth + 1)) (toLex (index + 1, width + 1))
    with before | same | behind
  · have less := (toLex_lt_toLex_iff otherFound otherWithin found widthWithin).mp before
    omega
  · exact same
  · have greater := (toLex_lt_toLex_iff found widthWithin otherFound otherWithin).mp behind
    omega

/--
Offsets and lines with columns say the same.  The offset of a position is the
nearest one inside the text; its line is one of the lines of the text and its
column is inside that line, or just behind it; and the offset is reached from the
start of the line by the column.  Over the offsets of a text, lines and columns
ascend, no two offsets share theirs, and every line and column is that of an
offset.  Line and column are those that are had by reading the text in front of
the offset character by character, and by seeking its last line feed.
-/
theorem positionAt_changes_coordinates (text : Text) :
    (∀ offset : Int, ∃ content : Text,
      ((text.positionAt offset).offset : Int) = max 0 (min offset text.length) ∧
      1 ≤ (text.positionAt offset).line ∧
      (text.positionAt offset).line ≤ (lines text).length ∧
      (lines text)[(text.positionAt offset).line - 1]? = some content ∧
      1 ≤ (text.positionAt offset).column ∧
      (text.positionAt offset).column ≤ content.length + 1 ∧
      (text.positionAt offset).offset =
        text.lineStart ((text.positionAt offset).line - 1) +
          ((text.positionAt offset).column - 1)) ∧
    StrictMonoOn text.coordinatesAt (Set.Icc 0 (text.length : Int)) ∧
    Set.BijOn text.coordinatesAt (Set.Icc 0 (text.length : Int)) text.coordinates ∧
    ∀ offset : Int,
      (text.positionAt offset).line = lineBehind (text.take (text.positionAt offset).offset) ∧
      ((text.positionAt offset).column : Int) =
        (text.positionAt offset).offset -
          lastIndexOf CodeUnit.lineFeed (text.take (text.positionAt offset).offset) := by
  refine ⟨fun offset => ?_, strictMonoOn_coordinatesAt text, ⟨mapsTo_coordinatesAt text,
    (strictMonoOn_coordinatesAt text).injOn, surjOn_coordinatesAt text⟩,
    positionAt_eq_scans text⟩
  rcases positionAt_spec text offset with
    ⟨index, column, content, position, found, within, reached⟩
  rcases List.getElem?_eq_some_iff.mp found with ⟨inside, _⟩
  have nearest : (text.clamp offset : Int) = max 0 (min offset text.length) := by
    unfold clamp
    omega
  rw [position]
  exact ⟨content, nearest, Nat.succ_pos _, inside, found, Nat.succ_pos _,
    Nat.succ_le_succ within, reached⟩

end Text
end JuliaLint

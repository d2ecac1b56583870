import JuliaLint.Proofs.MatchShapes
import JuliaLint.Proofs.Pieces

namespace JuliaLint
namespace MultiCharLiteral

/-!
# Character literals as segments between apostrophes

The apostrophes of a script cut it into segments.  Whether a segment is taken
for a literal depends on the segments in front of it: one that is too short
leaves its closing apostrophe to open the next segment, while a literal uses up
both of its apostrophes, and the segment behind it is passed over.  So the
matches of the pattern can be told from the list of segments alone.
-/

def isApostrophe (unit : CodeUnit) : Bool :=
  unit == CodeUnit.singleQuote

/--
The texts between neighbouring apostrophes, each with the offset behind the
apostrophe that opens it.
-/
def segments (source : Text) : List (Nat × Text) :=
  (Text.placedPieces isApostrophe source).tail.dropLast

/--
The segments that are reported: of those that are left, the first one if it has
two units or more, and then the segment behind it is left out.
-/
def reported : List (Nat × Text) → List (Nat × Text)
  | [] => []
  | [segment] => if 2 ≤ segment.2.length then [segment] else []
  | segment :: next :: later =>
      if 2 ≤ segment.2.length then segment :: reported later else reported (next :: later)

section Reported

variable {segment : Nat × Text}

theorem reported_cons_of_long (long : 2 ≤ segment.2.length) (later : List (Nat × Text)) :
    reported (segment :: later) = segment :: reported later.tail := by
  cases later with
  | nil => simp only [reported, if_pos long, List.tail_nil]
  | cons next later => rw [reported, if_pos long, List.tail_cons]

theorem reported_cons_of_short (short : ¬2 ≤ segment.2.length) (later : List (Nat × Text)) :
    reported (segment :: later) = reported later := by
  cases later with
  | nil => simp only [reported, if_neg short]
  | cons next later => rw [reported, if_neg short]

/-- The first long segment is always reported. -/
theorem reported_eq_nil_iff {listed : List (Nat × Text)} :
    reported listed = [] ↔ ∀ segment ∈ listed, segment.2.length ≤ 1 := by
  induction listed with
  | nil => simp [reported]
  | cons segment later ih =>
      by_cases long : 2 ≤ segment.2.length
      · rw [reported_cons_of_long long, List.forall_mem_cons]
        constructor
        · intro impossible
          cases impossible
        · rintro ⟨short, _⟩
          omega
      · rw [reported_cons_of_short long, ih, List.forall_mem_cons]
        exact ⟨fun shorts => ⟨by omega, shorts⟩, And.right⟩

end Reported

/-! ## Matches -/

theorem literal_eq_some_iff {before ahead content rest : Text} :
    literal before ahead = some (content, rest) ↔
      CodeUnit.singleQuote ∉ content ∧ 2 ≤ content.length ∧
        ahead = CodeUnit.singleQuote :: (content ++ CodeUnit.singleQuote :: rest) := by
  constructor
  · intro found
    have split := eq_append_of_literal found
    simp only [literal, Option.bind_eq_bind, Option.bind_eq_some_iff] at found
    rcases found with ⟨behind, _, ⟨read, stop⟩, contentRead, found⟩
    split at found
    · next long =>
      cases found
      exact ⟨(Text.upTo?_eq_some_iff.mp contentRead).1, long, split⟩
    · cases found
  · rintro ⟨absent, long, rfl⟩
    have contentRead : Text.upTo? CodeUnit.singleQuote (content ++ CodeUnit.singleQuote :: rest) =
        some (content, rest) :=
      Text.upTo?_eq_some_iff.mpr ⟨absent, rfl⟩
    have opened : Text.after? "'"
        (CodeUnit.singleQuote :: (content ++ CodeUnit.singleQuote :: rest)) =
        some (content ++ CodeUnit.singleQuote :: rest) :=
      Text.after?_eq_some_iff.mpr rfl
    simp only [literal, opened, Option.bind_eq_bind, Option.bind_some, contentRead, if_pos long]
    rfl

theorem literal_advances : literal.Advances := by
  intro before ahead content rest found
  rcases literal_eq_some_iff.mp found with ⟨_, _, rfl⟩
  refine ⟨CodeUnit.singleQuote :: (content ++ [CodeUnit.singleQuote]), List.cons_ne_nil _ _, ?_⟩
  simp only [List.cons_append, List.append_assoc, List.nil_append]

theorem inner_of_not_mem {content : Text} (absent : CodeUnit.singleQuote ∉ content) :
    ∀ unit ∈ content, isApostrophe unit = false := by
  rintro unit member
  apply beq_false_of_ne
  rintro rfl
  exact absent member

theorem not_mem_of_inner {content : Text} (inner : ∀ unit ∈ content, isApostrophe unit = false) :
    CodeUnit.singleQuote ∉ content := by
  intro member
  exact absurd (inner _ member) (by decide)

/-- Where an apostrophe is refused, the segment behind it is short or not closed. -/
theorem short_of_refused {before ahead segment : Text} {others : List Text}
    (refused : literal before (CodeUnit.singleQuote :: ahead) = none)
    (split : Text.splitWhere isApostrophe ahead = segment :: others) (closed : others ≠ []) :
    ¬2 ≤ segment.length := by
  intro long
  rcases Text.eq_append_of_splitWhere split with ⟨last, _⟩ | ⟨unit, rest, isMark, rfl, _⟩
  · exact closed last
  · obtain rfl : unit = CodeUnit.singleQuote := by simpa [isApostrophe] using isMark
    have member : segment ∈
        Text.splitWhere isApostrophe (segment ++ CodeUnit.singleQuote :: rest) :=
      split ▸ List.mem_cons_self
    have absent := not_mem_of_inner (Text.not_separates_of_mem_splitWhere member)
    rw [literal_eq_some_iff.mpr ⟨absent, long, rfl⟩] at refused
    cases refused

/-! ## The scan -/

/-- A scan finds what is reported of the segments that open ahead of it. -/
theorem map_scanFrom_literal (before ahead : Text) :
    (Pattern.scanFrom literal before 0 ahead).map
        (fun occurrence => (occurrence.start + 1, occurrence.capture)) =
      reported
        (Text.placedFrom before.length (Text.splitWhere isApostrophe ahead)).tail.dropLast := by
  induction before, ahead using Pattern.walk_induction literal_advances with
  | finished before => rfl
  | refused before unit ahead outcome ih =>
      rw [Pattern.scanFrom_of_refused outcome, ih]
      rcases List.exists_cons_of_ne_nil (Text.splitWhere_ne_nil isApostrophe ahead) with
        ⟨segment, others, split⟩
      cases isMark : isApostrophe unit with
      | false =>
          have behind : before.length + (unit :: segment).length + 1 =
              (unit :: before).length + segment.length + 1 := by
            simp only [List.length_cons]
            omega
          rw [Text.splitWhere_cons_of_inner isMark split, split, Text.placedFrom, Text.placedFrom,
            behind, List.tail_cons, List.tail_cons]
      | true =>
          obtain rfl : unit = CodeUnit.singleQuote := by simpa [isApostrophe] using isMark
          rw [Text.splitWhere_cons_of_separates isMark, split]
          cases others with
          | nil => rfl
          | cons next others =>
              have short := short_of_refused outcome split (List.cons_ne_nil _ _)
              simp only [Text.placedFrom, List.tail_cons, List.dropLast_cons_cons]
              rw [reported_cons_of_short short]
              rfl
  | accepted before matched content rest nonempty outcome ih =>
      rcases literal_eq_some_iff.mp outcome with ⟨absent, long, split⟩
      obtain rfl : matched = CodeUnit.singleQuote :: (content ++ [CodeUnit.singleQuote]) := by
        apply List.append_cancel_right
        rw [split]
        simp only [List.cons_append, List.append_assoc, List.nil_append]
      have pieces : Text.splitWhere isApostrophe
          (CodeUnit.singleQuote :: (content ++ CodeUnit.singleQuote :: rest)) =
          [] :: content :: Text.splitWhere isApostrophe rest := by
        rw [Text.splitWhere_cons_of_separates rfl,
          Text.splitWhere_append_cons (inner_of_not_mem absent) rfl]
      have behind : before.length + 1 + content.length + 1 =
          ((CodeUnit.singleQuote :: (content ++ [CodeUnit.singleQuote])).reverse ++
            before).length := by
        simp only [List.length_append, List.length_reverse, List.length_cons, List.length_nil]
        omega
      rcases List.exists_cons_of_ne_nil (Text.splitWhere_ne_nil isApostrophe rest) with
        ⟨passed, others, restSplit⟩
      rw [Pattern.scanFrom_of_accepted nonempty outcome, List.map_cons, ih, split, pieces,
        ← behind, restSplit]
      simp only [Text.placedFrom, List.tail_cons, List.length_nil, Nat.add_zero,
        List.dropLast_cons_cons]
      rw [reported_cons_of_long long, List.tail_dropLast, List.tail_cons]

/--
The literals that the rule finds are the reported ones among the segments
between apostrophes.  The rule is silent if no segment has two units, and
otherwise has one finding, at the apostrophe in front of the first reported
segment, which lists up to three of them.
-/
theorem findings_eq_reported_segments (source : Text) :
    (literal.occurrences source).map
        (fun occurrence => (occurrence.start + 1, occurrence.capture)) =
        reported (segments source) ∧
      (Rule.multiCharLiteral.findings source = [] ↔
        ∀ segment ∈ segments source, segment.2.length ≤ 1) ∧
      Rule.multiCharLiteral.findings source =
        (reported (segments source)).head?.toList.map fun first =>
          { code := "MULTI_CHAR_LITERAL"
            category := .strings
            severity := .error
            message := "Multi-char literals: " ++
              Text.quotedList (((reported (segments source)).take 3).map Prod.snd) ++
              "... – use string"
            position? := some (source.positionAt (first.1 - 1 : Nat))
            edits := [] } := by
  have found : (literal.occurrences source).map
      (fun occurrence => (occurrence.start + 1, occurrence.capture)) = reported (segments source) :=
    map_scanFrom_literal [] source
  refine ⟨found, ?_, ?_⟩
  · rw [← reported_eq_nil_iff, ← found, List.map_eq_nil_iff]
    simp only [Rule.findings, findings]
    cases literal.occurrences source <;> simp
  · rw [← found]
    simp only [Rule.findings, findings]
    cases literal.occurrences source with
    | nil => rfl
    | cons first others =>
        have listed : (((first :: others).map fun occurrence =>
            (occurrence.start + 1, occurrence.capture)).take 3).map Prod.snd =
            ((first :: others).take 3).map Occurrence.capture := by
          rw [← List.map_take, List.map_map]
          rfl
        rw [listed]
        rfl

/-- A short literal leaves its closing mark to the gap behind it, which hides the next literal. -/
example : reported (segments "f('a'bc'de')") = [(5, Text.ofString "bc")] := by decide

end MultiCharLiteral
end JuliaLint

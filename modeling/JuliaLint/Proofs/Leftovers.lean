import JuliaLint.Proofs.Assembly
import JuliaLint.Proofs.MembershipReading
import Mathlib.Data.List.Basic

namespace JuliaLint
namespace NegatedMembership

/-!
# Tests that a repair leaves behind

A repair is a single pass.  It removes the two marks of every match and copies
all other marks that it meets outside of matches, in operands and in the kept
content of double quotes.  Two copied marks of one kind may then enclose a
quoted text, even if they did not before, and if a test follows the later one
the repaired script is reported again.

Whether this happens can be told from the source.  A copied mark is followed by
a test in the repaired script exactly if it was in the source, with one
exception: a mark in kept content that breaks off after the word `not`, where
the repair itself supplies the word `in`.
-/

/-! ## Marks of the source that the repair copies -/

/-- The match that covers a place. -/
def around? (occurrences : List (Occurrence Membership)) (place : Nat) :
    Option (Occurrence Membership) :=
  occurrences.find? fun test => decide (test.start ≤ place) && decide (place < test.stop)

/-- Whether a place of a match lies in what the negated test keeps of the quoted text. -/
def inElement (test : Occurrence Membership) (place : Nat) : Bool :=
  decide (test.start < place) && decide (place ≤ test.start + test.capture.element.length)

def inOperand (test : Occurrence Membership) (place : Nat) : Bool :=
  decide (test.stop ≤ place + test.capture.operand.length)

/-- Whether the repair copies the unit at a place. -/
def copies (occurrences : List (Occurrence Membership)) (place : Nat) : Bool :=
  (around? occurrences place).all fun test => inElement test place || inOperand test place

/-- Whether the repair completes a test behind the mark at a place, because the
kept content breaks off there after `not`. -/
def completesTest (occurrences : List (Occurrence Membership)) (place : Nat) : Bool :=
  (around? occurrences place).any fun test =>
    inElement test place && isBareNot (test.capture.element.drop (place - test.start))

/-- Whether a test follows the place in the source, or will once it is repaired. -/
def precedesTest (source : Text) (occurrences : List (Occurrence Membership)) (place : Nat) :
    Bool :=
  startsTest (source.drop (place + 1)) || completesTest occurrences place

/-- Two marks of one kind are copied, and a test follows the later one. -/
def LeavesTest (source : Text) : Prop :=
  ∃ opening closing mark, opening < closing ∧ QuoteBalance.isQuote mark = true ∧
    source[opening]? = some mark ∧ copies (expression.occurrences source) opening = true ∧
    source[closing]? = some mark ∧ copies (expression.occurrences source) closing = true ∧
    precedesTest source (expression.occurrences source) closing = true

/-! ## Marks in their order -/

/-- The marks of a text, each with the answer of `test` on what follows it. -/
def marksWith (test : Text → Bool) : Text → List (CodeUnit × Bool)
  | [] => []
  | unit :: text =>
      if QuoteBalance.isQuote unit then
        (unit, test text) :: marksWith test text
      else
        marksWith test text

/-- The mark at a place if the repair copies it, and whether a test follows. -/
def copiedMark? (source : Text) (occurrences : List (Occurrence Membership)) (place : Nat) :
    Option (CodeUnit × Bool) :=
  source[place]?.bind fun unit =>
    if QuoteBalance.isQuote unit && copies occurrences place then
      some (unit, precedesTest source occurrences place)
    else
      none

/-- Some mark with a test is not the first of its kind. -/
def HasPair (marks : List (CodeUnit × Bool)) : Prop :=
  ∃ earlier later mark, marks = earlier ++ later ∧
    (∃ followed, (mark, followed) ∈ earlier) ∧ (mark, true) ∈ later

theorem marksWith_append (test : Text → Bool) (first second : Text) :
    marksWith test (first ++ second) =
      marksWith (fun behind => test (behind ++ second)) first ++ marksWith test second := by
  induction first with
  | nil => rfl
  | cons unit first ih =>
      simp only [List.cons_append, marksWith]
      split
      · rw [ih]
        rfl
      · exact ih

theorem mem_marksWith {test : Text → Bool} {text : Text} {mark : CodeUnit} {followed : Bool} :
    (mark, followed) ∈ marksWith test text ↔
      QuoteBalance.isQuote mark = true ∧
        ∃ lead behind, text = lead ++ mark :: behind ∧ test behind = followed := by
  induction text with
  | nil => simp [marksWith]
  | cons unit text ih =>
      rw [marksWith]
      constructor
      · intro member
        split at member
        · next isMark =>
          rcases List.mem_cons.mp member with here | later
          · rcases Prod.mk.inj here with ⟨rfl, rfl⟩
            exact ⟨isMark, [], text, rfl, rfl⟩
          · rcases ih.mp later with ⟨laterMark, lead, behind, rfl, answer⟩
            exact ⟨laterMark, unit :: lead, behind, rfl, answer⟩
        · rcases ih.mp member with ⟨laterMark, lead, behind, rfl, answer⟩
          exact ⟨laterMark, unit :: lead, behind, rfl, answer⟩
      · rintro ⟨isMark, lead, behind, split, answer⟩
        cases lead with
        | nil =>
            rcases List.cons.inj split with ⟨rfl, rfl⟩
            rw [if_pos isMark, answer]
            exact List.mem_cons_self
        | cons first lead =>
            have later := ih.mpr ⟨isMark, lead, behind, (List.cons.inj split).2, answer⟩
            split
            · exact List.mem_cons_of_mem _ later
            · exact later

/-- Cutting the list of marks cuts the text. -/
theorem exists_split_of_marksWith_eq_append {test : Text → Bool} {text : Text}
    {earlier later : List (CodeUnit × Bool)} (cut : marksWith test text = earlier ++ later) :
    ∃ first second, text = first ++ second ∧
      earlier = marksWith (fun behind => test (behind ++ second)) first ∧
      later = marksWith test second := by
  induction text generalizing earlier with
  | nil =>
      rcases List.append_eq_nil_iff.mp cut.symm with ⟨rfl, rfl⟩
      exact ⟨[], [], rfl, rfl, rfl⟩
  | cons unit text ih =>
      cases earlier with
      | nil => exact ⟨[], unit :: text, rfl, rfl, cut.symm⟩
      | cons mark earlier =>
          rw [marksWith] at cut
          split at cut
          · next isMark =>
            rcases List.cons.inj cut with ⟨rfl, laterCut⟩
            rcases ih laterCut with ⟨first, second, rfl, rfl, rfl⟩
            exact ⟨unit :: first, second, rfl, by rw [marksWith, if_pos isMark], rfl⟩
          · next notMark =>
            rcases ih cut with ⟨first, second, rfl, sameEarlier, rfl⟩
            exact ⟨unit :: first, second, rfl, by rw [marksWith, if_neg notMark, sameEarlier], rfl⟩

theorem occurrences_ne_nil_iff_hasPair {text : Text} :
    expression.occurrences text ≠ [] ↔ HasPair (marksWith startsTest text) := by
  rw [occurrences_ne_nil_iff]
  constructor
  · rintro ⟨lead, mark, behind, rfl, isMark, earlier, starts⟩
    rcases List.append_of_mem earlier with ⟨outer, content, opened⟩
    refine ⟨_, _, mark, marksWith_append startsTest lead (mark :: behind),
      ⟨startsTest (content ++ mark :: behind), ?_⟩, ?_⟩
    · exact mem_marksWith.mpr ⟨isMark, outer, content, opened, rfl⟩
    · exact mem_marksWith.mpr ⟨isMark, [], behind, rfl, starts⟩
  · rintro ⟨earlier, later, mark, cut, ⟨followed, opening⟩, closing⟩
    rcases exists_split_of_marksWith_eq_append cut with ⟨first, second, rfl, rfl, rfl⟩
    rcases mem_marksWith.mp opening with ⟨isMark, outer, content, rfl, _⟩
    rcases mem_marksWith.mp closing with ⟨_, between, behind, rfl, starts⟩
    refine ⟨outer ++ mark :: content ++ between, mark, behind, ?_, isMark, ?_, starts⟩
    · simp
    · simp

/-! ## Places of the source -/

theorem copiedMark?_eq_some_iff {source : Text} {occurrences : List (Occurrence Membership)}
    {place : Nat} {mark : CodeUnit} {followed : Bool} :
    copiedMark? source occurrences place = some (mark, followed) ↔
      QuoteBalance.isQuote mark = true ∧ source[place]? = some mark ∧
        copies occurrences place = true ∧ precedesTest source occurrences place = followed := by
  unfold copiedMark?
  cases source[place]? with
  | none => simp
  | some unit =>
      simp only [Option.bind_some, Option.some.injEq]
      split
      · next copied =>
        rw [Bool.and_eq_true] at copied
        constructor
        · intro same
          rcases Prod.mk.inj (Option.some.inj same) with ⟨rfl, rfl⟩
          exact ⟨copied.1, rfl, copied.2, rfl⟩
        · rintro ⟨_, rfl, _, rfl⟩
          rfl
      · next notCopied =>
        constructor
        · intro impossible
          cases impossible
        · rintro ⟨isMark, rfl, copied, _⟩
          rw [isMark, copied] at notCopied
          exact absurd rfl notCopied

theorem hasPair_copiedMarks_iff {source : Text} :
    HasPair ((List.range' 0 source.length).filterMap
        (copiedMark? source (expression.occurrences source))) ↔ LeavesTest source := by
  constructor
  · rintro ⟨earlier, later, mark, cut, ⟨followed, openingMember⟩, closingMember⟩
    rcases List.filterMap_eq_append_iff.mp cut with ⟨front, back, places, rfl, rfl⟩
    rcases List.mem_filterMap.mp openingMember with ⟨opening, openingPlace, openingMark⟩
    rcases List.mem_filterMap.mp closingMember with ⟨closing, closingPlace, closingMark⟩
    have ascending : (front ++ back).Pairwise (· < ·) := places ▸ List.pairwise_lt_range'
    have before := (List.pairwise_append.mp ascending).2.2 _ openingPlace _ closingPlace
    rcases copiedMark?_eq_some_iff.mp openingMark with ⟨isMark, openingUnit, openingCopied, _⟩
    rcases copiedMark?_eq_some_iff.mp closingMark with ⟨_, closingUnit, closingCopied, follows⟩
    exact ⟨opening, closing, mark, before, isMark, openingUnit, openingCopied, closingUnit,
      closingCopied, follows⟩
  · rintro ⟨opening, closing, mark, before, isMark, openingUnit, openingCopied, closingUnit,
      closingCopied, follows⟩
    have inside : closing < source.length := (List.getElem?_eq_some_iff.mp closingUnit).1
    have places : List.range' 0 source.length =
        List.range' 0 closing ++ List.range' closing (source.length - closing) := by
      have joined := List.range'_append_1 (s := 0) (m := closing) (n := source.length - closing)
      rw [Nat.zero_add, Nat.add_sub_cancel' (Nat.le_of_lt inside)] at joined
      exact joined.symm
    refine ⟨_, _, mark, by rw [places, List.filterMap_append],
      ⟨precedesTest source (expression.occurrences source) opening, ?_⟩, ?_⟩
    · apply List.mem_filterMap.mpr
      refine ⟨opening, List.mem_range'_1.mpr ⟨Nat.zero_le _, by omega⟩, ?_⟩
      exact copiedMark?_eq_some_iff.mpr ⟨isMark, openingUnit, openingCopied, rfl⟩
    · apply List.mem_filterMap.mpr
      refine ⟨closing, List.mem_range'_1.mpr ⟨Nat.le_refl _, by omega⟩, ?_⟩
      exact copiedMark?_eq_some_iff.mpr ⟨isMark, closingUnit, closingCopied, follows⟩

/-! ## The marks of the repaired script -/

theorem copiedMark?_of_copied {lead behind : Text} {unit : CodeUnit}
    {occurrences : List (Occurrence Membership)}
    (copied : copies occurrences lead.length = true) :
    copiedMark? (lead ++ unit :: behind) occurrences lead.length =
      if QuoteBalance.isQuote unit then
        some (unit, startsTest behind || completesTest occurrences lead.length)
      else
        none := by
  have here : (lead ++ unit :: behind)[lead.length]? = some unit := by
    rw [List.getElem?_append_right (Nat.le_refl _), Nat.sub_self]
    rfl
  have ahead : (lead ++ unit :: behind).drop (lead.length + 1) = behind := by
    rw [List.append_cons]
    exact List.drop_left' (by simp)
  unfold copiedMark? precedesTest
  rw [here, ahead, copied, Option.bind_some, Bool.and_true]

/-- A stretch of the source that is copied whole contributes its marks. -/
theorem filterMap_copiedMark?_of_copied {source lead segment rest : Text}
    {occurrences : List (Occurrence Membership)} {test : Text → Bool}
    (split : source = lead ++ (segment ++ rest))
    (copied : ∀ place, lead.length ≤ place → place < lead.length + segment.length →
      copies occurrences place = true)
    (follows : ∀ first unit second, segment = first ++ unit :: second →
      (startsTest (second ++ rest) || completesTest occurrences (lead.length + first.length)) =
        test second) :
    (List.range' lead.length segment.length).filterMap (copiedMark? source occurrences) =
      marksWith test segment := by
  induction segment generalizing lead with
  | nil => rfl
  | cons unit segment ih =>
      have laterSplit : source = (lead ++ [unit]) ++ (segment ++ rest) := by
        simpa using split
      have laterCopied : ∀ place, (lead ++ [unit]).length ≤ place →
          place < (lead ++ [unit]).length + segment.length → copies occurrences place = true := by
        intro place above below
        rw [List.length_append, List.length_singleton] at above below
        apply copied place
        · omega
        · rw [List.length_cons]
          omega
      have laterFollows : ∀ first other second, segment = first ++ other :: second →
          (startsTest (second ++ rest) ||
            completesTest occurrences ((lead ++ [unit]).length + first.length)) =
            test second := by
        intro first other second cut
        rw [List.length_append, List.length_singleton, Nat.add_assoc, Nat.add_comm 1]
        exact follows (unit :: first) other second (congrArg (List.cons unit) cut)
      have others := ih laterSplit laterCopied laterFollows
      rw [List.length_append, List.length_singleton] at others
      rw [List.length_cons, List.range'_succ, List.filterMap_cons, others, marksWith, split,
        List.cons_append, copiedMark?_of_copied (copied _ (Nat.le_refl _) (by simp))]
      have hereFollows : (startsTest (segment ++ rest) ||
          completesTest occurrences lead.length) = test segment :=
        follows [] unit segment rfl
      rw [hereFollows]
      cases QuoteBalance.isQuote unit <;> rfl

/-- A stretch of the source of which nothing is copied contributes nothing. -/
theorem filterMap_copiedMark?_of_dropped {source : Text}
    {occurrences : List (Occurrence Membership)} {start count : Nat}
    (dropped : ∀ place, start ≤ place → place < start + count →
      copies occurrences place = false) :
    (List.range' start count).filterMap (copiedMark? source occurrences) = [] := by
  apply List.filterMap_eq_nil_iff.mpr
  intro place member
  rcases List.mem_range'_1.mp member with ⟨above, below⟩
  unfold copiedMark?
  rw [dropped place above below]
  cases source[place]? with
  | none => rfl
  | some unit => simp

/-- Behind any text, script and source are read alike: they agree up to the next
match, and both of its first units stop reading. -/
theorem startsTest_substituteFrom (before ahead : Text) :
    ∀ lead, startsTest
        (lead ++ Pattern.substituteFrom expression Membership.negated before 0 ahead) =
      startsTest (lead ++ ahead) := by
  induction before, ahead using Pattern.walk_induction expression_advances with
  | finished before => exact fun lead => rfl
  | refused before unit ahead outcome ih =>
      intro lead
      rw [Pattern.substituteFrom_of_refused _ outcome]
      have step := ih (lead ++ [unit])
      simpa using step
  | accepted before matched membership rest nonempty outcome ih =>
      intro lead
      rcases eq_spelling_of_expression outcome with ⟨spacing, spelled, split⟩
      rw [Pattern.substituteFrom_of_accepted _ nonempty outcome, split]
      exact startsTest_append_cons ⟨by decide, by decide, by decide, by decide⟩
        (stopsReading_of_isQuote (isQuote_iff.mpr spelled.quote_isMark)) lead _ _

/-! ## One match -/

/-- The match stands behind `lead`: its opening mark, its content, its closing
mark with the words of the test, and its operand. -/
structure StandsBehind (test : Occurrence Membership) (lead words : Text) : Prop where
  start_eq : test.start = lead.length
  matched_eq : test.matched = test.capture.quote ::
    (test.capture.content ++ (test.capture.quote :: words ++ test.capture.operand))

namespace StandsBehind

variable {test : Occurrence Membership} {lead words : Text}
  (stands : StandsBehind test lead words)

include stands

theorem stop_eq : test.stop = lead.length +
    (1 + (test.capture.content.length + (1 + words.length + test.capture.operand.length))) := by
  rw [Occurrence.stop, stands.start_eq, stands.matched_eq]
  simp only [List.length_cons, List.length_append]
  omega

theorem around?_eq (others : List (Occurrence Membership)) {place : Nat}
    (above : lead.length ≤ place) (below : place < test.stop) :
    around? (test :: others) place = some test := by
  apply List.find?_cons_of_pos
  rw [stands.start_eq]
  simp [above, below]

theorem inElement_eq (place : Nat) :
    inElement test place =
      decide (lead.length < place ∧ place ≤ lead.length + test.capture.element.length) := by
  rw [inElement, stands.start_eq, Bool.decide_and]

theorem copies_eq (others : List (Occurrence Membership)) {place : Nat}
    (above : lead.length ≤ place) (below : place < test.stop) :
    copies (test :: others) place = (inElement test place || inOperand test place) := by
  unfold copies
  rw [stands.around?_eq others above below]
  rfl

/-- In front of the operand only the element is copied. -/
theorem copies_eq_inElement (others : List (Occurrence Membership)) {place : Nat}
    (above : lead.length ≤ place)
    (below : place < lead.length + 1 + test.capture.content.length + (1 + words.length)) :
    copies (test :: others) place = inElement test place := by
  have stops := stands.stop_eq
  have noOperand : inOperand test place = false := by
    apply decide_eq_false
    omega
  rw [stands.copies_eq others above (by omega), noOperand, Bool.or_false]

/-- At a mark of the element, the rest of the element decides whether a test is completed. -/
theorem completesTest_eq (others : List (Occurrence Membership)) {first second : Text}
    {unit : CodeUnit} (cut : test.capture.element = first ++ unit :: second) :
    completesTest (test :: others) (lead.length + 1 + first.length) = isBareNot second := by
  have stops := stands.stop_eq
  have kept := length_element_le test.capture
  have within := congrArg List.length cut
  rw [List.length_append, List.length_cons] at within
  have inside : inElement test (lead.length + 1 + first.length) = true := by
    rw [stands.inElement_eq]
    apply decide_eq_true
    omega
  have remaining : test.capture.element.drop (lead.length + 1 + first.length - test.start) =
      second := by
    rw [cut, stands.start_eq, List.append_cons]
    apply List.drop_left'
    rw [List.length_append, List.length_singleton]
    omega
  rw [completesTest, stands.around?_eq others (by omega) (by omega), Option.any_some, inside,
    remaining, Bool.true_and]

theorem filterMap_content (others : List (Occurrence Membership)) (rest : Text) :
    (List.range' (lead.length + 1) test.capture.content.length).filterMap
        (copiedMark? (lead ++ (test.matched ++ rest)) (test :: others)) =
      marksWith
        (fun behind => startsTest (behind ++ (" in " ++ (test.capture.operand ++ rest))))
        test.capture.element := by
  have stops := stands.stop_eq
  by_cases double : test.capture.quote = CodeUnit.doubleQuote
  · have whole : test.capture.element = test.capture.content := if_pos double
    have split : lead ++ (test.matched ++ rest) = (lead ++ [test.capture.quote]) ++
        (test.capture.content ++
          (test.capture.quote :: (words ++ test.capture.operand ++ rest))) := by
      rw [stands.matched_eq]
      simp
    have leadLength : (lead ++ [test.capture.quote]).length = lead.length + 1 := by simp
    rw [whole, ← leadLength]
    apply filterMap_copiedMark?_of_copied split
    · intro place above below
      rw [leadLength] at above below
      rw [stands.copies_eq_inElement others (by omega) (by omega), stands.inElement_eq, whole]
      apply decide_eq_true
      omega
    · intro first unit second cut
      -- the closing mark of the source becomes the word `in` of the script
      rw [leadLength, stands.completesTest_eq others (whole.trans cut), double]
      exact (startsTest_append_in second _ _).symm
  · have nothing : test.capture.element = [] := if_neg double
    rw [nothing, marksWith]
    apply filterMap_copiedMark?_of_dropped
    intro place above below
    rw [stands.copies_eq_inElement others (by omega) (by omega), stands.inElement_eq, nothing,
      List.length_nil]
    apply decide_eq_false
    omega

theorem filterMap_operand (others : List (Occurrence Membership)) (rest : Text) :
    (List.range' (lead.length + 1 + test.capture.content.length + (1 + words.length))
          test.capture.operand.length).filterMap
        (copiedMark? (lead ++ (test.matched ++ rest)) (test :: others)) =
      marksWith (fun behind => startsTest (behind ++ rest)) test.capture.operand := by
  have stops := stands.stop_eq
  have split : lead ++ (test.matched ++ rest) =
      (lead ++ test.capture.quote :: test.capture.content ++ test.capture.quote :: words) ++
        (test.capture.operand ++ rest) := by
    rw [stands.matched_eq]
    simp
  have leadLength :
      (lead ++ test.capture.quote :: test.capture.content ++ test.capture.quote :: words).length =
        lead.length + 1 + test.capture.content.length + (1 + words.length) := by
    simp only [List.length_append, List.length_cons]
    omega
  rw [← leadLength]
  apply filterMap_copiedMark?_of_copied split
  · intro place above below
    rw [leadLength] at above below
    have inside : inOperand test place = true := by
      apply decide_eq_true
      omega
    rw [stands.copies_eq others (by omega) (by omega), inside, Bool.or_true]
  · intro first unit second cut
    have kept := length_element_le test.capture
    have within := congrArg List.length cut
    simp only [List.length_append, List.length_cons] at within
    have outside : inElement test
        (lead.length + 1 + test.capture.content.length + (1 + words.length) + first.length) =
        false := by
      rw [stands.inElement_eq]
      apply decide_eq_false
      omega
    rw [leadLength, completesTest, stands.around?_eq others (by omega) (by omega),
      Option.any_some, outside, Bool.false_and, Bool.or_false]

theorem filterMap_matched (others : List (Occurrence Membership)) (rest : Text) :
    (List.range' lead.length test.matched.length).filterMap
        (copiedMark? (lead ++ (test.matched ++ rest)) (test :: others)) =
      marksWith
          (fun behind => startsTest (behind ++ (" in " ++ (test.capture.operand ++ rest))))
          test.capture.element ++
        marksWith (fun behind => startsTest (behind ++ rest)) test.capture.operand := by
  have places : List.range' lead.length test.matched.length =
      List.range' lead.length 1 ++ List.range' (lead.length + 1) test.capture.content.length ++
        List.range' (lead.length + 1 + test.capture.content.length) (1 + words.length) ++
        List.range' (lead.length + 1 + test.capture.content.length + (1 + words.length))
          test.capture.operand.length := by
    rw [List.range'_append_1, Nat.add_assoc lead.length, List.range'_append_1,
      Nat.add_assoc lead.length, List.range'_append_1, stands.matched_eq]
    congr 1
    simp only [List.length_cons, List.length_append]
    omega
  have noOpening : (List.range' lead.length 1).filterMap
      (copiedMark? (lead ++ (test.matched ++ rest)) (test :: others)) = [] := by
    apply filterMap_copiedMark?_of_dropped
    intro place above below
    rw [stands.copies_eq_inElement others above (by omega), stands.inElement_eq]
    apply decide_eq_false
    omega
  have noWords : (List.range' (lead.length + 1 + test.capture.content.length)
      (1 + words.length)).filterMap
        (copiedMark? (lead ++ (test.matched ++ rest)) (test :: others)) = [] := by
    apply filterMap_copiedMark?_of_dropped
    intro place above below
    have kept := length_element_le test.capture
    rw [stands.copies_eq_inElement others (by omega) (by omega), stands.inElement_eq]
    apply decide_eq_false
    omega
  rw [places, List.filterMap_append, List.filterMap_append, List.filterMap_append, noOpening,
    noWords, stands.filterMap_content, stands.filterMap_operand, List.nil_append,
    List.append_nil]

end StandsBehind

theorem standsBehind_of_expression {before matched rest : Text} {membership : Membership}
    (found : expression before (matched ++ rest) = some (membership, rest)) :
    ∃ words, StandsBehind { start := before.length, matched, capture := membership }
      before.reverse words := by
  rcases eq_spelling_of_expression found with ⟨spacing, _, split⟩
  have spelled := List.append_cancel_right split
  refine ⟨spacing.beforeNot ++ ("not" ++ (spacing.beforeIn ++ ("in" ++
    spacing.beforeOperand))), List.length_reverse.symm, ?_⟩
  simp [spelled, Membership.spelling]

/-! ## The whole pass -/

theorem marksWith_negated (membership : Membership) (rest : Text) :
    marksWith startsTest (membership.negated ++ rest) =
      marksWith (fun behind => startsTest (behind ++ (" in " ++ (membership.operand ++ rest))))
          membership.element ++
        marksWith (fun behind => startsTest (behind ++ rest)) membership.operand ++
        marksWith startsTest rest := by
  have written : membership.negated ++ rest =
      Text.ofString "!" ++ (membership.element ++
        (Text.ofString " in " ++ (membership.operand ++ rest))) := by
    simp only [Membership.negated, List.append_assoc]
  rw [written, marksWith_append _ (Text.ofString "!"), marksWith_append _ membership.element,
    marksWith_append _ (Text.ofString " in "), marksWith_append _ membership.operand,
    List.append_assoc]
  rfl

theorem copiedMark?_cons_of_behind {source : Text} {test : Occurrence Membership}
    (others : List (Occurrence Membership)) {place : Nat} (behind : test.stop ≤ place) :
    copiedMark? source (test :: others) place = copiedMark? source others place := by
  have passed : around? (test :: others) place = around? others place := by
    apply List.find?_cons_of_neg
    simp only [Bool.and_eq_true, decide_eq_true_eq]
    omega
  unfold copiedMark? copies precedesTest completesTest
  rw [passed]

/-- A mark outside of all matches is copied, and what follows it does not change. -/
theorem copiedMark?_of_uncovered {before ahead : Text} {unit : CodeUnit}
    {occurrences : List (Occurrence Membership)}
    (uncovered : around? occurrences before.length = none) :
    copiedMark? (before.reverse ++ unit :: ahead) occurrences before.length =
      if QuoteBalance.isQuote unit then some (unit, startsTest ahead) else none := by
  rw [← List.length_reverse] at uncovered ⊢
  have copied : copies occurrences before.reverse.length = true := by
    rw [copies, uncovered]
    rfl
  have notCompleted : completesTest occurrences before.reverse.length = false := by
    rw [completesTest, uncovered]
    rfl
  rw [copiedMark?_of_copied copied, notCompleted, Bool.or_false]

/-- The marks of the repaired script are the copied marks of the source, in their
order and with the same answers on whether a test follows. -/
theorem marksWith_substituteFrom (before ahead : Text) :
    marksWith startsTest
        (Pattern.substituteFrom expression Membership.negated before 0 ahead) =
      (List.range' before.length ahead.length).filterMap
        (copiedMark? (before.reverse ++ ahead)
          (Pattern.scanFrom expression before 0 ahead)) := by
  induction before, ahead using Pattern.walk_induction expression_advances with
  | finished before => rfl
  | refused before unit ahead outcome ih =>
      rw [Pattern.scanFrom_of_refused outcome, Pattern.substituteFrom_of_refused _ outcome,
        List.length_cons, List.range'_succ, List.filterMap_cons]
      have uncovered : around? (Pattern.scanFrom expression (unit :: before) 0 ahead)
          before.length = none := by
        apply List.find?_eq_none.mpr
        intro test member
        have within := (Pattern.scanFrom_within expression_advances _ _ test member).1
        simp only [List.length_cons, Bool.and_eq_true, decide_eq_true_eq] at within ⊢
        omega
      have others : marksWith startsTest
          (Pattern.substituteFrom expression Membership.negated (unit :: before) 0 ahead) =
          (List.range' (before.length + 1) ahead.length).filterMap
            (copiedMark? (before.reverse ++ unit :: ahead)
              (Pattern.scanFrom expression (unit :: before) 0 ahead)) := by
        simpa using ih
      have sameReading := startsTest_substituteFrom (unit :: before) ahead []
      rw [List.nil_append, List.nil_append] at sameReading
      rw [copiedMark?_of_uncovered uncovered, marksWith, sameReading, others]
      cases QuoteBalance.isQuote unit <;> rfl
  | accepted before matched membership rest nonempty outcome ih =>
      rw [Pattern.scanFrom_of_accepted nonempty outcome,
        Pattern.substituteFrom_of_accepted _ nonempty outcome, marksWith_negated]
      rcases standsBehind_of_expression outcome with ⟨words, stands⟩
      have inMatch := stands.filterMap_matched
        (Pattern.scanFrom expression (matched.reverse ++ before) 0 rest) rest
      have sameReading := startsTest_substituteFrom (matched.reverse ++ before) rest
      have behindElement : (fun behind => startsTest (behind ++ (Text.ofString " in " ++
          (membership.operand ++ Pattern.substituteFrom expression Membership.negated
            (matched.reverse ++ before) 0 rest)))) =
          fun behind => startsTest (behind ++ (" in " ++ (membership.operand ++ rest))) := by
        funext behind
        have reading := sameReading (behind ++ (" in " ++ membership.operand))
        simpa only [List.append_assoc] using reading
      have behindMatch : (List.range' (before.length + matched.length) rest.length).filterMap
          (copiedMark? (before.reverse ++ (matched ++ rest))
            ({ start := before.length, matched, capture := membership } ::
              Pattern.scanFrom expression (matched.reverse ++ before) 0 rest)) =
          marksWith startsTest (Pattern.substituteFrom expression Membership.negated
            (matched.reverse ++ before) 0 rest) := by
        rw [ih]
        have samePlaces : (matched.reverse ++ before).length = before.length + matched.length := by
          rw [List.length_append, List.length_reverse, Nat.add_comm]
        have sameSource : (matched.reverse ++ before).reverse ++ rest =
            before.reverse ++ (matched ++ rest) := by
          simp
        rw [samePlaces, sameSource]
        apply List.filterMap_congr
        intro place member
        exact copiedMark?_cons_of_behind _ (List.mem_range'_1.mp member).1
      rw [List.length_reverse] at inMatch
      rw [List.length_append, ← List.range'_append_1, List.filterMap_append, inMatch,
        behindMatch, behindElement]
      simp only [sameReading]

/-- One pass leaves a quoted membership test exactly when the source lets it. -/
theorem occurrences_substitute_ne_nil_iff (source : Text) :
    expression.occurrences (expression.substitute Membership.negated source) ≠ [] ↔
      LeavesTest source := by
  rw [occurrences_ne_nil_iff_hasPair, Pattern.substitute, marksWith_substituteFrom]
  exact hasPair_copiedMarks_iff

/--
A repair writes the negated test in the place of every match of its one pass.
The repaired script is reported again exactly when the pass leaves a quoted
membership test behind and the script still has a plain `not in`, and repaired
again when no finding is cut off.
-/
theorem reported_again_iff_leavesTest (source : Text) (config : Config)
    (repaired : (lint source config).isRepaired = true) :
    (lint source config).script = expression.substitute Membership.negated source ∧
      (Rule.negatedMembership.findings (lint source config).script ≠ [] ↔
        LeavesTest source ∧ Text.holds "not in" (lint source config).script = true) ∧
      ((lint (lint source config).script config).isRepaired = true ↔
        LeavesTest source ∧ Text.holds "not in" (lint source config).script = true ∧
          (inspect (lint source config).script config).length ≤ 10) := by
  have reported := (isRepaired_lint_iff.mp repaired).2
  have enabled := (findingsUnder_ne_nil_iff.mp reported).1
  have script : (lint source config).script = expression.substitute Membership.negated source := by
    rw [script_lint_of_repaired repaired, repairAll_of_findings reported]
  have reportedAgain : Rule.negatedMembership.findings (lint source config).script ≠ [] ↔
      LeavesTest source ∧ Text.holds "not in" (lint source config).script = true := by
    have leaves := occurrences_substitute_ne_nil_iff source
    rw [← script] at leaves
    rw [← leaves]
    exact findings_ne_nil_iff
  refine ⟨script, reportedAgain, ?_⟩
  rw [isRepaired_lint_iff, findingsUnder_ne_nil_iff, reportedAgain]
  constructor
  · rintro ⟨allListed, _, leaves, plain⟩
    exact ⟨leaves, plain, allListed⟩
  · rintro ⟨leaves, plain, allListed⟩
    exact ⟨allListed, enabled, leaves, plain⟩

/-- The marks around the first test go, and the two that are left enclose its
negation in front of a second test. -/
theorem reported_again_of_repaired_marks :
    let source : Text := "x\" \"a\" not in b; \" not in c"
    (lint source Config.empty).isRepaired = true ∧
      (lint source Config.empty).script = "x\" !a in b; \" not in c" ∧
      Rule.negatedMembership.findings (lint source Config.empty).script ≠ [] := by
  have repaired :
      (lint "x\" \"a\" not in b; \" not in c" Config.empty).isRepaired = true := by
    decide +kernel
  have leaves : LeavesTest "x\" \"a\" not in b; \" not in c" :=
    ⟨1, 17, CodeUnit.doubleQuote, by decide, by decide, by decide, by decide +kernel, by decide,
      by decide +kernel, by decide +kernel⟩
  refine ⟨repaired, by decide +kernel, ?_⟩
  exact (reported_again_iff_leavesTest _ _ repaired).2.1.mpr ⟨leaves, by decide +kernel⟩

/-- The operand of the one match of this script is a second test, which the pass
copies; the repaired script is reported and repaired again. -/
theorem repair_of_nested_tests_repaired_again :
    let source : Text := "\"a\" not in \"b\" not in c"
    (lint source Config.standard).isRepaired = true ∧
      Rule.negatedMembership.findings (lint source Config.standard).script ≠ [] ∧
      (lint (lint source Config.standard).script Config.standard).isRepaired = true := by
  decide +kernel

end NegatedMembership
end JuliaLint

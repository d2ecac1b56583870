import JuliaLint.Proofs.CatchClauses
import JuliaLint.Proofs.FilterAgreement
import JuliaLint.Proofs.PartedNames
import JuliaLint.Proofs.QuotedSegments
import JuliaLint.Proofs.Seams
import JuliaLint.Proofs.WholeWords

namespace JuliaLint

/-!
# Where findings and edits point

A finding points at the start of a match, and every pattern begins with a word
of its own, so the text at that place shows what the finding is about.  A match
is not empty and lies inside the text; matches are listed from left to right and
do not overlap.  What holds of the places of findings and of the ranges of edits
follows from these facts about matches, whichever rule made them.
-/

/--
The words of which one stands where a finding of the rule points.  A rule
without such words reports on the text as a whole.
-/
def Rule.openings : Rule → List Text
  | blockBalance | quoteBalance | indentConsistency => []
  | catchSyntax => ["catch"]
  | multiCharLiteral => ["'"]
  | redundantConversion => ["T("]
  | vagueFilter => ["filter(tf -> \""]
  | foreignOperator => ["and", "or", "elif", "True", "False", "is not"]
  | negatedMembership => ["\"", "'"]

/-- The position is that of its offset, which lies in the text in front of one of the words. -/
structure Position.PointsAt (source : Text) (openings : List Text) (position : Position) :
    Prop where
  agrees : source.positionAt position.offset = position
  inside : position.offset < source.length
  opens : ∃ opening ∈ openings, opening <+: source.drop position.offset

/-- The findings point at such words, from left to right, or at nothing if there are none. -/
structure FindingsPointAt (source : Text) (openings : List Text) (findings : List Finding) :
    Prop where
  whole : ∀ finding ∈ findings, finding.position? = none ↔ openings = []
  points : ∀ finding ∈ findings, ∀ position ∈ finding.position?,
    position.PointsAt source openings
  ascending : findings.Pairwise fun earlier later =>
    ∃ first ∈ earlier.position?, ∃ second ∈ later.position?, first.offset < second.offset

/-! ## Matches -/

namespace Pattern

variable {α : Type} {pattern : Pattern α} {openings : List Text} {source : Text}
  {occurrence : Occurrence α}

/-- Every match begins with one of the words. -/
def OpensWith (pattern : Pattern α) (openings : List Text) : Prop :=
  ∀ (before ahead : Text) (capture : α) (rest : Text),
    pattern before ahead = some (capture, rest) → ∃ opening ∈ openings, opening <+: ahead

section Matches

variable (advances : pattern.Advances)

include advances

theorem within_of_mem_occurrences (listed : occurrence ∈ pattern.occurrences source) :
    occurrence.start < occurrence.stop ∧ occurrence.stop ≤ source.length := by
  have within := scanFrom_within advances [] source occurrence listed
  rw [List.length_nil, Nat.zero_add] at within
  exact within.2

/-- The position of a match has its offset. -/
theorem offset_of_mem_occurrences (listed : occurrence ∈ pattern.occurrences source) :
    (source.positionAt occurrence.start).offset = occurrence.start := by
  have within := within_of_mem_occurrences advances listed
  exact Text.clamp_of_le (by omega)

variable (opens : pattern.OpensWith openings)

include opens

theorem pointsAt_of_mem_occurrences (listed : occurrence ∈ pattern.occurrences source) :
    (source.positionAt occurrence.start).PointsAt source openings where
  agrees := source.positionAt_offset occurrence.start
  inside := by
    have within := within_of_mem_occurrences advances listed
    rw [offset_of_mem_occurrences advances listed]
    omega
  opens := by
    rw [offset_of_mem_occurrences advances listed]
    exact opens _ _ _ _ (read_of_mem_occurrences advances listed).2

theorem openings_ne_nil (listed : occurrence ∈ pattern.occurrences source) : openings ≠ [] := by
  rcases (pointsAt_of_mem_occurrences advances opens listed).opens with ⟨opening, member, _⟩
  exact List.ne_nil_of_mem member

/-- One finding for each match. -/
theorem findingsPointAt_map (rule : Rule) (message : Occurrence α → Text) :
    FindingsPointAt source openings ((pattern.occurrences source).map fun occurrence =>
      rule.finding (message occurrence) (some (source.positionAt occurrence.start)) []) where
  whole := by
    intro finding member
    rcases List.mem_map.mp member with ⟨occurrence, listed, rfl⟩
    exact iff_of_false (Option.some_ne_none _) (openings_ne_nil advances opens listed)
  points := by
    intro finding member position pointed
    rcases List.mem_map.mp member with ⟨occurrence, listed, rfl⟩
    cases pointed
    exact pointsAt_of_mem_occurrences advances opens listed
  ascending := by
    apply List.pairwise_map.mpr
    apply List.Pairwise.imp_of_mem _ (scanFrom_starts_ascend advances [] source)
    intro earlier later earlierListed laterListed before
    refine ⟨_, rfl, _, rfl, ?_⟩
    rw [offset_of_mem_occurrences advances earlierListed,
      offset_of_mem_occurrences advances laterListed]
    exact before

/-- One finding at a match. -/
theorem findingsPointAt_singleton (listed : occurrence ∈ pattern.occurrences source) (rule : Rule)
    (message : Text) (edits : List Edit) :
    FindingsPointAt source openings
      [rule.finding message (some (source.positionAt occurrence.start)) edits] where
  whole := by
    intro finding member
    rw [List.mem_singleton.mp member]
    exact iff_of_false (Option.some_ne_none _) (openings_ne_nil advances opens listed)
  points := by
    intro finding member position pointed
    rw [List.mem_singleton.mp member] at pointed
    cases pointed
    exact pointsAt_of_mem_occurrences advances opens listed
  ascending := List.pairwise_singleton _ _

end Matches

end Pattern

namespace FindingsPointAt

variable {source : Text} {openings : List Text}

theorem nil : FindingsPointAt source openings [] where
  whole := List.forall_mem_nil _
  points := List.forall_mem_nil _
  ascending := List.Pairwise.nil

/-- One finding about the text as a whole. -/
theorem whole_text (rule : Rule) (message : Text) :
    FindingsPointAt source [] [rule.finding message none []] where
  whole := by
    intro finding member
    rw [List.mem_singleton.mp member]
    exact iff_of_true rfl rfl
  points := by
    intro finding member position pointed
    rw [List.mem_singleton.mp member] at pointed
    cases pointed
  ascending := List.pairwise_singleton _ _

end FindingsPointAt

/-! ## The first word of a match -/

theorem CatchSyntax.clause_opensWith : clause.OpensWith Rule.catchSyntax.openings := by
  intro before ahead capture rest found
  rcases eq_append_of_clause found with ⟨_, body, rfl⟩
  exact ⟨_, List.mem_singleton_self _, List.prefix_append _ _⟩

theorem MultiCharLiteral.literal_opensWith :
    literal.OpensWith Rule.multiCharLiteral.openings := by
  intro before ahead content rest found
  rw [eq_append_of_literal found]
  exact ⟨_, List.mem_singleton_self _, List.prefix_append _ _⟩

theorem RedundantConversion.call_opensWith :
    call.OpensWith Rule.redundantConversion.openings := by
  intro before ahead capture rest found
  rcases eq_append_of_call found with ⟨numeral, rfl⟩
  exact ⟨_, List.mem_singleton_self _, List.prefix_append _ _⟩

theorem VagueFilter.lambda_opensWith : lambda.OpensWith Rule.vagueFilter.openings := by
  intro before ahead content rest found
  rcases eq_append_of_lambda found with ⟨body, rfl⟩
  exact ⟨_, List.mem_singleton_self _, List.prefix_append _ _⟩

theorem ForeignOperator.wholeWord_opensWith :
    wholeWord.OpensWith Rule.foreignOperator.openings := by
  intro before ahead word rest found
  rw [eq_append_of_wholeWord found]
  have listed : word.spelling ∈ Rule.foreignOperator.openings := by
    cases word <;> decide
  exact ⟨_, listed, List.prefix_append _ _⟩

theorem NegatedMembership.expression_opensWith :
    expression.OpensWith Rule.negatedMembership.openings := by
  intro before ahead membership rest found
  rcases eq_spelling_of_expression found with ⟨spacing, spelled, rfl⟩
  refine ⟨[membership.quote], ?_, List.prefix_append _ _⟩
  rcases spelled.quote_isMark with double | single
  · rw [double]
    decide
  · rw [single]
    decide

/-! ## The findings of the rules -/

theorem Rule.findingsPointAt (rule : Rule) (source : Text) :
    FindingsPointAt source rule.openings (rule.findings source) := by
  cases rule with
  | blockBalance =>
      simp only [findings, BlockBalance.findings]
      split
      · exact .nil
      · exact .whole_text _ _
  | catchSyntax =>
      exact Pattern.findingsPointAt_map CatchSyntax.clause_advances
        CatchSyntax.clause_opensWith _ _
  | quoteBalance =>
      simp only [findings, QuoteBalance.findings]
      split
      · exact .nil
      · exact .whole_text _ _
  | multiCharLiteral =>
      simp only [findings, MultiCharLiteral.findings]
      split
      · exact .nil
      · next first others found =>
        exact Pattern.findingsPointAt_singleton MultiCharLiteral.literal_advances
          MultiCharLiteral.literal_opensWith (found ▸ List.mem_cons_self) _ _ _
  | indentConsistency =>
      simp only [findings, IndentConsistency.findings]
      split
      · exact .nil
      · exact .whole_text _ _
  | redundantConversion =>
      simp only [findings, RedundantConversion.findings]
      split
      · exact .nil
      · next first others found =>
        exact Pattern.findingsPointAt_singleton RedundantConversion.call_advances
          RedundantConversion.call_opensWith (found ▸ List.mem_cons_self) _ _ _
  | vagueFilter =>
      rw [findings, VagueFilter.findings_eq_map]
      exact Pattern.findingsPointAt_map VagueFilter.lambda_advances
        VagueFilter.lambda_opensWith _ _
  | foreignOperator =>
      simp only [findings, ForeignOperator.findings]
      split
      · exact .nil
      · next first others found =>
        exact Pattern.findingsPointAt_singleton ForeignOperator.wholeWord_advances
          ForeignOperator.wholeWord_opensWith (found ▸ List.mem_cons_self) _ _ _
  | negatedMembership =>
      simp only [findings, NegatedMembership.findings_eq]
      split
      · split
        · exact .nil
        · next first others found =>
          exact Pattern.findingsPointAt_singleton NegatedMembership.expression_advances
            NegatedMembership.expression_opensWith (found ▸ List.mem_cons_self) _ _ _
      · exact .nil

/-- The edits of a rule replace the matches of the membership pattern, if there are any. -/
theorem Rule.edits_findings_sublist (rule : Rule) (source : Text) :
    ((rule.findings source).flatMap Finding.edits).Sublist
      ((NegatedMembership.expression.occurrences source).map (NegatedMembership.edit source)) := by
  by_cases edits : rule = .negatedMembership
  · subst edits
    change ((NegatedMembership.findings source).flatMap Finding.edits).Sublist _
    rw [NegatedMembership.edits_findings]
    split
    · exact List.Sublist.refl _
    · exact List.nil_sublist _
  · have noEdits : (rule.findings source).flatMap Finding.edits = [] := by
      apply List.flatMap_eq_nil_iff.mpr
      intro finding member
      rcases eq_finding_of_mem_findings member with ⟨message, position?, own, rfl, none⟩
      exact none edits
    rw [noEdits]
    exact List.nil_sublist _

/--
Every position points at what is reported.  The position of a finding is that of
its offset, which lies in the text, and one of the words that open a match of
the rule stands there; only rules without such words have findings without a
position.  Several findings of a rule point from left to right.  The two ends of
an edit are the positions of their offsets; edits replace nonempty stretches of
the text, and each ends at or before the start of those behind it.
-/
theorem findings_point_at_reported (rule : Rule) (source : Text) :
    (∀ finding ∈ rule.findings source,
      (finding.position? = none ↔ rule.openings = []) ∧
      ∀ position ∈ finding.position?,
        source.positionAt position.offset = position ∧ position.offset < source.length ∧
          ∃ opening ∈ rule.openings, opening <+: source.drop position.offset) ∧
    ((rule.findings source).Pairwise fun earlier later =>
      ∃ first ∈ earlier.position?, ∃ second ∈ later.position?, first.offset < second.offset) ∧
    (∀ edit ∈ (rule.findings source).flatMap Finding.edits,
      source.positionAt edit.start.offset = edit.start ∧
      source.positionAt edit.stop.offset = edit.stop ∧
      edit.start.offset < edit.stop.offset ∧ edit.stop.offset ≤ source.length) ∧
    ((rule.findings source).flatMap Finding.edits).Pairwise fun earlier later =>
      earlier.stop.offset ≤ later.start.offset := by
  have pointed := rule.findingsPointAt source
  have edited := rule.edits_findings_sublist source
  refine ⟨fun finding member => ⟨pointed.whole finding member, ?_⟩, pointed.ascending, ?_, ?_⟩
  · intro position isPosition
    have points := pointed.points finding member position isPosition
    exact ⟨points.agrees, points.inside, points.opens⟩
  · intro edit member
    rcases List.mem_map.mp (edited.mem member) with ⟨occurrence, listed, rfl⟩
    have within := Pattern.within_of_mem_occurrences NegatedMembership.expression_advances listed
    rcases NegatedMembership.offsets_edit listed with ⟨start, stop⟩
    refine ⟨source.positionAt_offset occurrence.start, source.positionAt_offset occurrence.stop, ?_⟩
    rw [start, stop]
    exact within
  · refine List.Pairwise.sublist edited (List.pairwise_map.mpr ?_)
    apply List.Pairwise.imp_of_mem _
      (Pattern.scanFrom_ascending NegatedMembership.expression_advances [] source)
    intro earlier later earlierListed laterListed behind
    rw [(NegatedMembership.offsets_edit earlierListed).2,
      (NegatedMembership.offsets_edit laterListed).1]
    exact behind

/-- Two clauses behind a surrogate pair: offsets count its two halves. -/
theorem findings_point_at_two_clauses :
    let source : Text := "😀\ncatch e\ncatch f\n"
    (Rule.catchSyntax.findings source).map Finding.position? =
        [some ⟨2, 1, 3⟩, some ⟨3, 1, 11⟩] ∧
      (∀ finding ∈ Rule.catchSyntax.findings source, ∀ position ∈ finding.position?,
        position.offset < source.length ∧
          ∃ opening ∈ Rule.catchSyntax.openings, opening <+: source.drop position.offset) ∧
      Rule.catchSyntax.openings = [Text.ofString "catch"] := by
  intro source
  refine ⟨by decide +kernel, ?_, rfl⟩
  intro finding member position isPosition
  have points :=
    ((findings_point_at_reported .catchSyntax source).1 finding member).2 position isPosition
  exact points.2

end JuliaLint

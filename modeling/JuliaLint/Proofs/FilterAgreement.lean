import JuliaLint.Proofs.Assembly
import JuliaLint.Proofs.MatchShapes
import JuliaLint.Proofs.MembershipReading

namespace JuliaLint

/-!
# A reported filter holds a test that can be repaired

The filters that one rule reports hold the quoted membership tests that another
one repairs, yet the two read what follows `not in` differently: a filter goes
to the next closing parenthesis on its line, however close that is, while a
test needs an operand.  The space that a filter has behind `in` is operand
enough, if nothing better follows.  An earlier match may take the test of the
filter into its own operand, but it is a match all the same.
-/

namespace NegatedMembership

theorem startsTest_not_in (rest : Text) : startsTest (" not in " ++ rest) = true :=
  rfl

/-- Where a filter is read, the quotation mark behind its content is followed by a test. -/
theorem reported_of_lambda {source : Text} (found : VagueFilter.lambda.occurrences source ≠ []) :
    expression.occurrences source ≠ [] ∧ Text.holds "not in" source = true := by
  rcases (Pattern.scanFrom_ne_nil_iff VagueFilter.lambda_advances [] source).mp found with
    ⟨lead, ahead, rfl, read⟩
  rcases Option.isSome_iff_exists.mp read with ⟨⟨content, rest⟩, filter⟩
  rcases VagueFilter.eq_append_of_lambda filter with ⟨body, rfl⟩
  constructor
  · apply occurrences_ne_nil_iff.mpr
    refine ⟨lead ++ ("filter(tf -> \"" ++ content), CodeUnit.doubleQuote,
      " not in " ++ (body ++ CodeUnit.closingParenthesis :: rest), ?_, by decide, ?_,
      startsTest_not_in _⟩
    · simp only [List.append_assoc]
    · have opened : CodeUnit.doubleQuote ∈ Text.ofString "filter(tf -> \"" := by decide
      exact List.mem_append_right _ (List.mem_append_left _ opened)
  · have plain : Text.ofString "not in" <:+: Text.ofString " not in " :=
      ⟨Text.ofString " ", Text.ofString " ", rfl⟩
    apply Text.holds_eq_true_iff.mpr
    refine plain.trans ⟨lead ++ ("filter(tf -> \"" ++ (content ++ [CodeUnit.doubleQuote])),
      body ++ CodeUnit.closingParenthesis :: rest, ?_⟩
    simp only [List.append_assoc, List.cons_append, List.nil_append]

end NegatedMembership

theorem negatedMembership_findings_of_vagueFilter {source : Text}
    (reported : Rule.vagueFilter.findings source ≠ []) :
    Rule.negatedMembership.findings source ≠ [] := by
  apply NegatedMembership.findings_ne_nil_iff.mpr
  apply NegatedMembership.reported_of_lambda
  intro noneFound
  apply reported
  simp only [Rule.findings, VagueFilter.findings_eq_map, noneFound, List.map_nil]

/-- A listed finding shows that its rule reports the script. -/
theorem findings_ne_nil_of_listed {source : Text} {config : Config} {rule : Rule}
    {finding : Finding} (listed : finding ∈ (lint source config).listed)
    (code : finding.code = rule.code) : rule.findings source ≠ [] := by
  rw [listed_lint] at listed
  have own : finding ∈ rule.findingsUnder config source := by
    rw [← filter_code_inspect]
    exact List.mem_filter.mpr ⟨List.mem_of_mem_take listed, by simpa using code⟩
  exact (findingsUnder_ne_nil_iff.mp (List.ne_nil_of_mem own)).2

/--
A script in which a filter is reported has the finding on its negated membership
tests too.  A report on at most ten findings that lists a filter is therefore
always repaired, unless the configuration turns the repairing rule off.
-/
theorem repaired_of_listed_filter (source : Text) :
    (Rule.vagueFilter.findings source ≠ [] →
      ∃ finding, Rule.negatedMembership.findings source = [finding]) ∧
    ∀ (config : Config) (total : Int) (listed : List Finding) (repaired : Bool) (script : Text),
      config.enables .negatedMembership = true →
      lint source config = .dirty total listed repaired script → total ≤ 10 →
      (∃ finding ∈ listed, finding.code = Rule.vagueFilter.code) → repaired = true := by
  constructor
  · intro reported
    have someFinding := List.length_pos_iff.mpr (negatedMembership_findings_of_vagueFilter reported)
    have atMostOne := NegatedMembership.length_findings_le_one source
    exact List.length_eq_one_iff.mp (Nat.le_antisymm atMostOne someFinding)
  · rintro config total listed repaired script enabled report few ⟨finding, inListed, code⟩
    have listedFilter : finding ∈ (lint source config).listed := report ▸ inListed
    have reported := negatedMembership_findings_of_vagueFilter
      (findings_ne_nil_of_listed listedFilter code)
    have someFound : inspect source config ≠ [] := by
      intro noneFound
      rw [listed_lint, noneFound] at listedFilter
      cases listedFilter
    have counted : total = (inspect source config).length := by
      have dirty := lint_eq_dirty someFound
      rw [report] at dirty
      exact (Report.dirty.inj dirty).1
    have isRepaired : (lint source config).isRepaired = true := by
      apply isRepaired_lint_iff.mpr
      refine ⟨?_, findingsUnder_ne_nil_iff.mpr ⟨enabled, reported⟩⟩
      unfold listingLimit
      omega
    rw [report] at isRepaired
    exact isRepaired

/-- The operand of this filter is a single space, and the report has its two findings. -/
theorem repaired_of_bare_filter :
    let source : Text := "filter(tf -> \"a\" not in )"
    (∃ finding, Rule.negatedMembership.findings source = [finding]) ∧
      (lint source Config.standard).isRepaired = true ∧
      (lint source Config.standard).script = "filter(tf -> !a in  )" := by
  intro source
  have reported : Rule.vagueFilter.findings source ≠ [] := by decide
  have report := lint_eq_dirty (show inspect source Config.standard ≠ [] by decide +kernel)
  refine ⟨(repaired_of_listed_filter source).1 reported, ?_, by decide +kernel⟩
  exact (repaired_of_listed_filter source).2 _ _ _ _ _ rfl report (by decide +kernel)
    (by decide +kernel)

end JuliaLint

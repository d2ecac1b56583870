import JuliaLint.Proofs.MembershipGrammar
import JuliaLint.Report

namespace JuliaLint

/-!
# From findings to the script of a report

Only the rule on negated membership tests proposes edits.  It comes last and has
at most one finding, so its finding is listed exactly when there are no more
findings than a report lists.  A report therefore either repairs the script by
the edits of all findings or gives it back as it was.
-/

/-! ## The findings of one rule -/

namespace Rule

/-- A finding carries the data of its rule, and edits come from one rule only. -/
theorem eq_finding_of_mem_findings {rule : Rule} {source : Text} {finding : Finding}
    (member : finding ∈ rule.findings source) :
    ∃ message position? edits, finding = rule.finding message position? edits ∧
      (rule ≠ .negatedMembership → edits = []) := by
  cases rule with
  | blockBalance =>
      simp only [findings, BlockBalance.findings] at member
      split at member
      · cases member
      · exact ⟨_, _, _, List.mem_singleton.mp member, fun _ => rfl⟩
  | catchSyntax =>
      rcases List.mem_map.mp member with ⟨occurrence, _, rfl⟩
      exact ⟨_, _, _, rfl, fun _ => rfl⟩
  | quoteBalance =>
      simp only [findings, QuoteBalance.findings] at member
      split at member
      · cases member
      · exact ⟨_, _, _, List.mem_singleton.mp member, fun _ => rfl⟩
  | multiCharLiteral =>
      simp only [findings, MultiCharLiteral.findings] at member
      split at member
      · cases member
      · exact ⟨_, _, _, List.mem_singleton.mp member, fun _ => rfl⟩
  | indentConsistency =>
      simp only [findings, IndentConsistency.findings] at member
      split at member
      · cases member
      · exact ⟨_, _, _, List.mem_singleton.mp member, fun _ => rfl⟩
  | redundantConversion =>
      simp only [findings, RedundantConversion.findings] at member
      split at member
      · cases member
      · exact ⟨_, _, _, List.mem_singleton.mp member, fun _ => rfl⟩
  | vagueFilter =>
      rcases List.mem_map.mp member with ⟨occurrence, _, rfl⟩
      exact ⟨_, _, _, rfl, fun _ => rfl⟩
  | foreignOperator =>
      simp only [findings, ForeignOperator.findings] at member
      split at member
      · cases member
      · exact ⟨_, _, _, List.mem_singleton.mp member, fun _ => rfl⟩
  | negatedMembership =>
      simp only [findings, NegatedMembership.findings_eq] at member
      split at member
      · split at member
        · cases member
        · exact ⟨_, _, _, List.mem_singleton.mp member, fun impossible => absurd rfl impossible⟩
      · cases member

theorem code_of_mem_findingsUnder {rule : Rule} {config : Config} {source : Text}
    {finding : Finding} (member : finding ∈ rule.findingsUnder config source) :
    finding.code = rule.code := by
  unfold findingsUnder at member
  split at member
  · rcases List.mem_map.mp member with ⟨original, originalMember, rfl⟩
    rcases eq_finding_of_mem_findings originalMember with ⟨message, position?, edits, rfl, _⟩
    rfl
  · cases member

theorem edits_of_mem_findingsUnder {rule : Rule} {config : Config} {source : Text}
    {finding : Finding} (member : finding ∈ rule.findingsUnder config source)
    (other : rule ≠ .negatedMembership) : finding.edits = [] := by
  unfold findingsUnder at member
  split at member
  · rcases List.mem_map.mp member with ⟨original, originalMember, rfl⟩
    rcases eq_finding_of_mem_findings originalMember with ⟨message, position?, edits, rfl, noEdits⟩
    exact noEdits other
  · cases member

end Rule

theorem NegatedMembership.length_findings_le_one (source : Text) :
    (NegatedMembership.findings source).length ≤ 1 := by
  rw [findings_eq]
  split
  · split
    · exact Nat.zero_le 1
    · exact Nat.le_refl 1
  · exact Nat.zero_le 1

theorem length_negatedMembership_le_one (source : Text) (config : Config) :
    (Rule.negatedMembership.findingsUnder config source).length ≤ 1 := by
  unfold Rule.findingsUnder
  split
  · rw [List.length_map]
    exact NegatedMembership.length_findings_le_one source
  · exact Nat.zero_le 1

/-! ## The findings of all rules -/

/-- The finding that carries edits, if there is one, comes last. -/
theorem inspect_eq_append (source : Text) (config : Config) :
    ∃ earlier, inspect source config =
        earlier ++ Rule.negatedMembership.findingsUnder config source ∧
      ∀ finding ∈ earlier,
        finding.code ≠ Rule.negatedMembership.code ∧ finding.edits = [] := by
  have split : Rule.all = Rule.all.dropLast ++ [Rule.negatedMembership] := rfl
  refine ⟨Rule.all.dropLast.flatMap fun rule => rule.findingsUnder config source, ?_, ?_⟩
  · unfold inspect
    rw [split, List.flatMap_append, List.flatMap_singleton]
    rfl
  · intro finding member
    rcases List.mem_flatMap.mp member with ⟨rule, ruleMember, findingMember⟩
    have other : rule ≠ .negatedMembership := by
      rintro rfl
      exact absurd ruleMember (by decide)
    refine ⟨?_, Rule.edits_of_mem_findingsUnder findingMember other⟩
    rw [Rule.code_of_mem_findingsUnder findingMember]
    exact fun same => other (Rule.code_injective same)

/-- The patches of all findings are those of the negated membership tests. -/
theorem patches_inspect (source : Text) (config : Config) :
    (inspect source config).flatMap Finding.patches =
      (Rule.negatedMembership.findingsUnder config source).flatMap Finding.patches := by
  rcases inspect_eq_append source config with ⟨earlier, split, plain⟩
  have noPatches : earlier.flatMap Finding.patches = [] := by
    apply List.flatMap_eq_nil_iff.mpr
    intro finding member
    rw [Finding.patches, (plain finding member).2, List.map_nil]
  rw [split, List.flatMap_append, noPatches, List.nil_append]

private theorem repairing_of_plain {findings : List Finding}
    (plain : ∀ finding ∈ findings, finding.code ≠ Rule.negatedMembership.code) :
    Report.repairing findings = [] := by
  apply List.filter_eq_nil_iff.mpr
  intro finding member
  simpa using plain finding member

/-- The repairing finding is listed exactly when nothing is cut off. -/
theorem repairing_listed (source : Text) (config : Config) :
    Report.repairing ((inspect source config).take listingLimit) =
      if (inspect source config).length ≤ listingLimit then
        Rule.negatedMembership.findingsUnder config source
      else
        [] := by
  rcases inspect_eq_append source config with ⟨earlier, split, plain⟩
  have atMostOne := length_negatedMembership_le_one source config
  have total : (inspect source config).length =
      earlier.length + (Rule.negatedMembership.findingsUnder config source).length := by
    rw [split, List.length_append]
  have plainCodes : ∀ finding ∈ earlier, finding.code ≠ Rule.negatedMembership.code :=
    fun finding member => (plain finding member).1
  by_cases allListed : (inspect source config).length ≤ listingLimit
  · have ownFindings : Report.repairing (Rule.negatedMembership.findingsUnder config source) =
        Rule.negatedMembership.findingsUnder config source := by
      apply List.filter_eq_self.mpr
      intro finding member
      simpa using Rule.code_of_mem_findingsUnder member
    rw [if_pos allListed, List.take_of_length_le allListed, split, Report.repairing,
      List.filter_append]
    change Report.repairing earlier ++ Report.repairing _ = _
    rw [repairing_of_plain plainCodes, ownFindings, List.nil_append]
  · have allEarlier : listingLimit ≤ earlier.length := by
      omega
    rw [if_neg allListed, split, List.take_append_of_le_length allEarlier]
    apply repairing_of_plain
    intro finding member
    exact plainCodes finding (List.mem_of_mem_take member)

/-! ## The report -/

def Report.listed : Report → List Finding
  | clean _ => []
  | dirty _ listed _ _ => listed

/-- Findings make a report that lists the first of them and is repaired by the
edits of those among them that repair. -/
theorem ofFindings_of_ne_nil {findings : List Finding} (found : findings ≠ [])
    (source : Text) :
    Report.ofFindings source findings =
      .dirty findings.length (findings.take listingLimit)
        (!(Report.repairing (findings.take listingLimit)).isEmpty)
        (repair source
          ((Report.repairing (findings.take listingLimit)).flatMap Finding.patches)).text := by
  cases findings with
  | nil => exact absurd rfl found
  | cons first others =>
      rw [Report.ofFindings]
      split
      · next noneRepairs =>
        rw [noneRepairs]
        rfl
      · next repairs =>
        rw [repairs]
        rfl

theorem listed_lint (source : Text) (config : Config) :
    (lint source config).listed = (inspect source config).take listingLimit := by
  unfold lint
  by_cases found : inspect source config = []
  · rw [found]
    rfl
  · rw [ofFindings_of_ne_nil found]
    rfl

private theorem isRepaired_ofFindings (source : Text) (findings : List Finding) :
    (Report.ofFindings source findings).isRepaired =
      !(Report.repairing (findings.take listingLimit)).isEmpty := by
  by_cases found : findings = []
  · rw [found]
    rfl
  · rw [ofFindings_of_ne_nil found]
    rfl

private theorem script_ofFindings (source : Text) (findings : List Finding) :
    (Report.ofFindings source findings).script =
      (repair source
        ((Report.repairing (findings.take listingLimit)).flatMap Finding.patches)).text := by
  by_cases found : findings = []
  · rw [found]
    rfl
  · rw [ofFindings_of_ne_nil found]
    rfl

/-- A script is repaired exactly when there is a repairing finding and all
findings are listed. -/
theorem isRepaired_lint_iff {source : Text} {config : Config} :
    (lint source config).isRepaired = true ↔
      (inspect source config).length ≤ listingLimit ∧
        Rule.negatedMembership.findingsUnder config source ≠ [] := by
  rw [lint, isRepaired_ofFindings, repairing_listed]
  by_cases allListed : (inspect source config).length ≤ listingLimit
  · simp [allListed]
  · simp [allListed]

/-- A repaired script is the repair by all findings. -/
theorem script_lint_of_repaired {source : Text} {config : Config}
    (repaired : (lint source config).isRepaired = true) :
    (lint source config).script = (repairAll source config).text := by
  have allListed := (isRepaired_lint_iff.mp repaired).1
  rw [lint, script_ofFindings, repairing_listed, if_pos allListed, repairAll,
    patches_inspect]

/-- A script that is not repaired is given back unchanged. -/
theorem script_lint_of_not_repaired {source : Text} {config : Config}
    (unrepaired : (lint source config).isRepaired = false) :
    (lint source config).script = source := by
  rw [lint, isRepaired_ofFindings] at unrepaired
  have noneListed : Report.repairing ((inspect source config).take listingLimit) = [] := by
    simpa using unrepaired
  rw [lint, script_ofFindings, noneListed]
  rfl

end JuliaLint

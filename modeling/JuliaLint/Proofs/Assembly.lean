import JuliaLint.Proofs.Relabelling
import JuliaLint.Proofs.Settling

namespace JuliaLint

/-!
# The report as a function of the findings

A report counts all findings, lists the first ten and repairs the script when
nothing was cut off the list.  The number of findings of one rule thus decides
whether the edits of another are made.  Since a repair always shortens the
script, whether it was repaired can be seen from the script alone.

Severities play no part in any of this, and turning rules off can only remove
findings.  Hence no configuration loses a repair by silencing other rules.
-/

/-! ## Assembly -/

theorem findingsUnder_ne_nil_iff {source : Text} {config : Config} {rule : Rule} :
    rule.findingsUnder config source ≠ [] ↔
      config.enables rule = true ∧ rule.findings source ≠ [] := by
  unfold Rule.findingsUnder
  split
  · next enabled => simp [enabled]
  · next disabled => simp [disabled]

theorem lint_eq_clean_iff {source : Text} {config : Config} :
    lint source config = .clean source ↔ inspect source config = [] := by
  constructor
  · intro clean
    apply Decidable.byContradiction
    intro found
    rw [lint, ofFindings_of_ne_nil found] at clean
    cases clean
  · intro noneFound
    rw [lint, noneFound]
    rfl

theorem lint_eq_dirty {source : Text} {config : Config}
    (found : inspect source config ≠ []) :
    lint source config =
      .dirty (inspect source config).length ((inspect source config).take listingLimit)
        (lint source config).isRepaired (lint source config).script := by
  unfold lint
  rw [ofFindings_of_ne_nil found]
  rfl

theorem script_ne_of_repaired {source : Text} {config : Config}
    (repaired : (lint source config).isRepaired = true) :
    (lint source config).script ≠ source := by
  rcases length_script_le repaired with ⟨finding, _, someEdits, shrunk⟩
  have positive := List.length_pos_iff.mpr someEdits
  intro same
  rw [same] at shrunk
  omega

/--
How a report is assembled.  It is clean exactly when there are no findings, and
otherwise has their number and the first ten of them.  The script is repaired
exactly when the rule on negated membership tests is enabled, finds something,
and at most ten findings were made; it is then repaired by the edits of all
findings, which changes it, and given back unchanged in every other case.
-/
theorem lint_assembles (source : Text) (config : Config) :
    (lint source config = .clean source ↔ inspect source config = []) ∧
      (inspect source config ≠ [] →
        lint source config =
          .dirty (inspect source config).length
            ((inspect source config).take (min 10 (inspect source config).length))
            (lint source config).isRepaired (lint source config).script) ∧
      ((lint source config).isRepaired = true ↔
        config.enables .negatedMembership = true ∧
          Rule.negatedMembership.findings source ≠ [] ∧
          (inspect source config).length ≤ 10) ∧
      ((lint source config).isRepaired = true →
        (lint source config).script =
            (repair source ((inspect source config).flatMap Finding.patches)).text ∧
          (lint source config).script ≠ source) ∧
      ((lint source config).isRepaired = false → (lint source config).script = source) ∧
      ((lint source config).script ≠ source ↔ (lint source config).isRepaired = true) := by
  refine ⟨lint_eq_clean_iff, ?_, ?_, ?_, script_lint_of_not_repaired, ?_⟩
  · intro found
    have sameListing : (inspect source config).take (min 10 (inspect source config).length) =
        (inspect source config).take listingLimit :=
      List.take_eq_take_min.symm
    rw [sameListing]
    exact lint_eq_dirty found
  · rw [isRepaired_lint_iff, findingsUnder_ne_nil_iff, and_comm, and_assoc]
    rfl
  · intro repaired
    exact ⟨script_lint_of_repaired repaired, script_ne_of_repaired repaired⟩
  · constructor
    · intro changed
      cases outcome : (lint source config).isRepaired with
      | true => rfl
      | false => exact absurd (script_lint_of_not_repaired outcome) changed
    · exact script_ne_of_repaired

/-- Nine invalid clauses leave room for the repair, and ten do not. -/
theorem lint_at_listing_limit :
    let withClauses (clauses : Nat) : Text :=
      (List.replicate clauses (Text.ofString "catch e\n")).flatten ++ "\"x\" not in y"
    (lint (withClauses 9) Config.empty).isRepaired = true ∧
      (lint (withClauses 9) Config.empty).script ≠ withClauses 9 ∧
      (lint (withClauses 10) Config.empty).script = withClauses 10 := by
  intro withClauses
  have repaired : (lint (withClauses 9) Config.empty).isRepaired = true := by decide +kernel
  have cutOff : (lint (withClauses 10) Config.empty).isRepaired = false := by decide +kernel
  exact ⟨repaired, ((lint_assembles _ _).2.2.2.1 repaired).2,
    (lint_assembles _ _).2.2.2.2.1 cutOff⟩

/-! ## Severities -/

/-- The report with one severity for all listed findings. -/
def Report.levelled (severity : Severity) : Report → Report
  | clean script => clean script
  | dirty total listed repaired script =>
      dirty total (listed.map fun finding => { finding with severity }) repaired script

theorem repairing_map_severity (severity : Severity) (findings : List Finding) :
    Report.repairing (findings.map fun finding => { finding with severity }) =
      (Report.repairing findings).map fun finding => { finding with severity } := by
  unfold Report.repairing
  rw [List.filter_map]
  rfl

/-- Levelling the findings before the report is made or after it is the same:
neither the listing nor the repair looks at severities. -/
theorem levelled_ofFindings (severity : Severity) (source : Text) (findings : List Finding) :
    (Report.ofFindings source findings).levelled severity =
      Report.ofFindings source (findings.map fun finding => { finding with severity }) := by
  by_cases found : findings = []
  · rw [found]
    rfl
  · have foundLevelled : findings.map (fun finding => { finding with severity }) ≠ [] :=
      fun noneLeft => found (List.map_eq_nil_iff.mp noneLeft)
    rw [ofFindings_of_ne_nil found, ofFindings_of_ne_nil foundLevelled, List.length_map,
      ← List.map_take, repairing_map_severity, List.isEmpty_map, List.flatMap_map]
    rfl

/-! ## Silencing rules -/

section Silencing

variable {first second : Config}

theorem admits_of_enables
    (fewer : ∀ rule, second.enables rule = true → first.enables rule = true)
    {source : Text} {finding : Finding} (member : finding ∈ inspect source Config.standard)
    (admitted : second.admits finding.code = true) : first.admits finding.code = true := by
  rw [inspect_standard] at member
  rcases List.mem_flatMap.mp member with ⟨rule, _, findingMember⟩
  rw [(Rule.code_and_severity_of_mem_findings findingMember).1] at admitted ⊢
  rw [← Config.enables_eq_admits] at admitted ⊢
  exact fewer rule admitted

theorem length_inspect_le_of_fewer
    (fewer : ∀ rule, second.enables rule = true → first.enables rule = true) (source : Text) :
    (inspect source second).length ≤ (inspect source first).length := by
  rw [inspect_eq_map_filter source first, inspect_eq_map_filter source second,
    List.length_map, List.length_map, ← List.countP_eq_length_filter,
    ← List.countP_eq_length_filter]
  apply List.countP_mono_left
  intro finding member admitted
  exact admits_of_enables fewer member admitted

theorem map_severity_inspect_congr
    (same : ∀ rule, first.enables rule = second.enables rule) (source : Text)
    (severity : Severity) :
    (inspect source first).map (fun finding => { finding with severity }) =
      (inspect source second).map fun finding => { finding with severity } := by
  rw [inspect_eq_map_filter source first, inspect_eq_map_filter source second,
    List.map_map, List.map_map]
  have sameAdmitted : ∀ finding ∈ inspect source Config.standard,
      first.admits finding.code = second.admits finding.code := by
    intro finding member
    apply Bool.eq_iff_iff.mpr
    constructor
    · exact admits_of_enables (fun rule enabled => same rule ▸ enabled) member
    · exact admits_of_enables (fun rule enabled => (same rule).symm ▸ enabled) member
  rw [List.filter_congr sameAdmitted]
  rfl

/--
Silencing rules never loses a repair.  If a configuration repairs a script, any
other that enables no further rules, but still the one on negated membership
tests, repairs it to the same script.  If two configurations enable the same
rules, their reports differ in the severities of the listed findings only.
-/
theorem lint_of_silenced_rules (source : Text) (first second : Config) :
    ((∀ rule, second.enables rule = true → first.enables rule = true) →
      second.enables .negatedMembership = true →
      (lint source first).isRepaired = true →
        (lint source second).isRepaired = true ∧
          (lint source second).script = (lint source first).script) ∧
    ((∀ rule, first.enables rule = second.enables rule) →
      ∀ severity, (lint source first).levelled severity =
        (lint source second).levelled severity) := by
  constructor
  · intro fewer enabled repaired
    rcases isRepaired_lint_iff.mp repaired with ⟨allListed, reported⟩
    have fewerFindings := length_inspect_le_of_fewer fewer source
    have stillReported : Rule.negatedMembership.findingsUnder second source ≠ [] :=
      findingsUnder_ne_nil_iff.mpr ⟨enabled, (findingsUnder_ne_nil_iff.mp reported).2⟩
    have stillRepaired : (lint source second).isRepaired = true :=
      isRepaired_lint_iff.mpr ⟨Nat.le_trans fewerFindings allListed, stillReported⟩
    refine ⟨stillRepaired, ?_⟩
    rw [script_lint_of_repaired stillRepaired, script_lint_of_repaired repaired,
      NegatedMembership.repairAll_of_findings stillReported,
      NegatedMembership.repairAll_of_findings reported]
  · intro same severity
    unfold lint
    rw [levelled_ofFindings, levelled_ofFindings,
      map_severity_inspect_congr same source severity]

end Silencing

/-- Without the finding on its clause a script is repaired as before, and another
severity for that finding changes nothing else. -/
theorem lint_with_silenced_clause :
    let source : Text := "catch e\n\"x\" not in y"
    let silenced : Config := { states := [("CATCH_SYNTAX", .off)], severities := [] }
    let lowered : Config := { states := [("CATCH_SYNTAX", .warn)], severities := [] }
    (lint source silenced).script = (lint source Config.empty).script ∧
      (lint source Config.empty).script = "catch e\n!x in y" ∧
      (lint source Config.empty).levelled .error = (lint source lowered).levelled .error := by
  intro source silenced lowered
  have fewer : ∀ rule, silenced.enables rule = true → Config.empty.enables rule = true :=
    fun _ _ => rfl
  have same : ∀ rule, Config.empty.enables rule = lowered.enables rule := by
    intro rule
    cases rule <;> rfl
  have repaired : (lint source Config.empty).isRepaired = true := by decide +kernel
  exact ⟨((lint_of_silenced_rules source Config.empty silenced).1 fewer rfl repaired).2,
    by decide +kernel, (lint_of_silenced_rules source Config.empty lowered).2 same .error⟩

end JuliaLint

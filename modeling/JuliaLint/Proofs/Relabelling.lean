import JuliaLint.Proofs.Reporting

namespace JuliaLint

/-!
# A configuration filters and relabels

Rules read the script and nothing else, so a configuration decides only which
of their findings are passed on and how serious they are.  Both decisions look
at the code of a finding.  Since every finding carries the code and the default
severity of its rule, an inspection under any configuration can be had from
the inspection under the standard one, finding by finding, and the entries for
one rule never touch the findings of another.
-/

namespace Config

variable (config : Config)

/-- Whether findings with this code are passed on. -/
def admits (code : String) : Bool :=
  config.states.lookup code != some .off

/-- The finding with the severity that the configuration has for its code; a
configuration without one leaves the finding as it is. -/
def relabel (finding : Finding) : Finding :=
  { finding with
    severity :=
      if config.states.lookup finding.code = some .warn then
        .warning
      else
        (config.severities.lookup finding.code).getD finding.severity }

theorem enables_eq_admits (rule : Rule) : config.enables rule = config.admits rule.code := by
  unfold enables stateOf admits
  cases config.states.lookup rule.code with
  | none => rfl
  | some state => cases state <;> rfl

private theorem stateOf_eq_warn_iff (rule : Rule) :
    config.stateOf rule = .warn ↔ config.states.lookup rule.code = some .warn := by
  unfold stateOf
  cases config.states.lookup rule.code with
  | none => simp
  | some state => simp

theorem relabel_of_rule {rule : Rule} {finding : Finding} (code : finding.code = rule.code)
    (severity : finding.severity = rule.defaultSeverity) :
    config.relabel finding = finding.withSeverity (config.severityOf rule) := by
  unfold relabel severityOf Finding.withSeverity
  simp only [stateOf_eq_warn_iff, code, severity]

theorem enables_standard (rule : Rule) : standard.enables rule = true := by
  rw [enables, stateOf, lookup_states_standard]
  rfl

theorem severityOf_standard (rule : Rule) : standard.severityOf rule = rule.defaultSeverity := by
  rw [severityOf, stateOf, lookup_states_standard, lookup_severities_standard]
  rfl

end Config

/-! ## One rule -/

namespace Rule

theorem code_and_severity_of_mem_findings {rule : Rule} {source : Text} {finding : Finding}
    (member : finding ∈ rule.findings source) :
    finding.code = rule.code ∧ finding.severity = rule.defaultSeverity := by
  rcases eq_finding_of_mem_findings member with ⟨message, position?, edits, rfl, _⟩
  exact ⟨rfl, rfl⟩

theorem findingsUnder_standard (rule : Rule) (source : Text) :
    rule.findingsUnder Config.standard source = rule.findings source := by
  unfold findingsUnder
  rw [if_pos (Config.enables_standard rule), Config.severityOf_standard]
  calc (rule.findings source).map (fun finding => finding.withSeverity rule.defaultSeverity)
      = (rule.findings source).map id := by
        apply List.map_congr_left
        intro finding member
        rw [← (code_and_severity_of_mem_findings member).2]
        rfl
    _ = rule.findings source := List.map_id _

/-- What a rule passes on is all of its findings relabelled, or none of them. -/
theorem findingsUnder_eq_map_filter (rule : Rule) (config : Config) (source : Text) :
    rule.findingsUnder config source =
      ((rule.findings source).filter fun finding => config.admits finding.code).map
        config.relabel := by
  have sameAnswer : ∀ finding ∈ rule.findings source,
      config.admits finding.code = config.enables rule := by
    intro finding member
    rw [(code_and_severity_of_mem_findings member).1, config.enables_eq_admits]
  unfold findingsUnder
  split
  · next enabled =>
    have allAdmitted : (rule.findings source).filter (fun finding => config.admits finding.code) =
        rule.findings source :=
      List.filter_eq_self.mpr fun finding member => (sameAnswer finding member).trans enabled
    rw [allAdmitted]
    apply List.map_congr_left
    intro finding member
    rcases code_and_severity_of_mem_findings member with ⟨code, severity⟩
    exact (config.relabel_of_rule code severity).symm
  · next disabled =>
    have noneAdmitted : (rule.findings source).filter
        (fun finding => config.admits finding.code) = [] := by
      apply List.filter_eq_nil_iff.mpr
      intro finding member
      rw [sameAnswer finding member]
      exact disabled
    rw [noneAdmitted, List.map_nil]

end Rule

/-! ## All rules -/

theorem inspect_standard (source : Text) :
    inspect source Config.standard = Rule.all.flatMap fun rule => rule.findings source := by
  unfold inspect
  congr 1
  funext rule
  exact rule.findingsUnder_standard source

theorem inspect_eq_map_filter (source : Text) (config : Config) :
    inspect source config =
      ((inspect source Config.standard).filter fun finding => config.admits finding.code).map
        config.relabel := by
  rw [inspect_standard, List.filter_flatMap, List.map_flatMap]
  unfold inspect
  congr 1
  funext rule
  exact rule.findingsUnder_eq_map_filter config source

/-- The findings of a rule can be told from all others by their code. -/
theorem filter_code_inspect (source : Text) (config : Config) (rule : Rule) :
    (inspect source config).filter (fun finding => finding.code == rule.code) =
      rule.findingsUnder config source := by
  unfold inspect
  rw [List.filter_flatMap]
  have onlyOwn : (fun other : Rule => (other.findingsUnder config source).filter
      fun finding => finding.code == rule.code) =
      fun other => if other = rule then rule.findingsUnder config source else [] := by
    funext other
    split
    · next same =>
      subst same
      apply List.filter_eq_self.mpr
      intro finding member
      simpa using Rule.code_of_mem_findingsUnder member
    · next different =>
      apply List.filter_eq_nil_iff.mpr
      intro finding member
      rw [Rule.code_of_mem_findingsUnder member]
      simpa using fun same => different (Rule.code_injective same)
  rw [onlyOwn]
  cases rule <;> simp [Rule.all]

theorem findingsUnder_congr {first second : Config} {rule : Rule} (source : Text)
    (sameState : first.states.lookup rule.code = second.states.lookup rule.code)
    (sameSeverity : first.severities.lookup rule.code = second.severities.lookup rule.code) :
    rule.findingsUnder first source = rule.findingsUnder second source := by
  unfold Rule.findingsUnder Config.enables Config.severityOf Config.stateOf
  rw [sameState, sameSeverity]

/--
An inspection under a configuration is the standard inspection without the
findings whose code is off, in the same order, and nothing but the severity of
what is left can change: it is `warning` where the state is `warn`, else the
configured severity, else the severity that was there.  The standard inspection
goes through the rules in their order and lists for each its own findings, which
carry its code and default severity.  Two configurations with the same entries
for a rule agree on the findings with its code, whatever they say about the
other rules.
-/
theorem inspect_eq_relabelled_standard (source : Text) (config : Config) :
    inspect source config =
        (((inspect source Config.standard).filter fun finding =>
          config.states.lookup finding.code != some .off).map fun finding =>
            { finding with
              severity :=
                if config.states.lookup finding.code = some .warn then
                  .warning
                else
                  (config.severities.lookup finding.code).getD finding.severity }) ∧
      (inspect source Config.standard = Rule.all.flatMap fun rule => rule.findings source) ∧
      (∀ rule : Rule, ∀ finding ∈ rule.findings source,
        finding.code = rule.code ∧ finding.severity = rule.defaultSeverity) ∧
      ∀ (other : Config) (rule : Rule),
        config.states.lookup rule.code = other.states.lookup rule.code →
        config.severities.lookup rule.code = other.severities.lookup rule.code →
        (inspect source config).filter (fun finding => finding.code == rule.code) =
          (inspect source other).filter fun finding => finding.code == rule.code := by
  refine ⟨inspect_eq_map_filter source config, inspect_standard source,
    fun rule finding member => Rule.code_and_severity_of_mem_findings member, ?_⟩
  intro other rule sameState sameSeverity
  rw [filter_code_inspect, filter_code_inspect]
  exact findingsUnder_congr source sameState sameSeverity

/-- A rule that is off, one that `warn` makes a warning although it has a severity,
and one that is lowered, here and where nothing else is configured. -/
theorem inspect_of_mixed_states :
    let config : Config :=
      { states := [("BLOCK_BALANCE", .off), ("QUOTE_BALANCE", .warn), ("NO_SUCH_RULE", .warn)]
        severities := [("QUOTE_BALANCE", .info), ("FOREIGN_OPERATOR", .info)] }
    let lowered : Config := { states := [], severities := [("FOREIGN_OPERATOR", .info)] }
    let source : Text := "function f() and '"
    (inspect source Config.standard).map (fun finding => (finding.code, finding.severity)) =
        [("BLOCK_BALANCE", .error), ("QUOTE_BALANCE", .error), ("FOREIGN_OPERATOR", .error)] ∧
      (inspect source config).map (fun finding => (finding.code, finding.severity)) =
        [("QUOTE_BALANCE", .warning), ("FOREIGN_OPERATOR", .info)] ∧
      (inspect source config).map Finding.message =
        ((inspect source Config.standard).drop 1).map Finding.message ∧
      (inspect source config).filter
          (fun finding => finding.code == Rule.foreignOperator.code) =
        (inspect source lowered).filter
          fun finding => finding.code == Rule.foreignOperator.code := by
  intro config lowered source
  have relabelled := inspect_eq_relabelled_standard source config
  refine ⟨by decide +kernel, ?_, ?_, ?_⟩
  · rw [relabelled.1]
    decide +kernel
  · rw [relabelled.1]
    decide +kernel
  · exact relabelled.2.2.2 lowered Rule.foreignOperator rfl rfl

end JuliaLint

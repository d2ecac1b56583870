import JuliaLint.Config.Basic
import JuliaLint.Rule.Battery

namespace JuliaLint

/-!
Inspecting a script under a configuration: every enabled rule runs over the
whole text, in the order of the rules, and its findings take the severity that
the configuration gives them.
-/

def Finding.withSeverity (finding : Finding) (severity : Severity) : Finding :=
  { finding with severity }

/-- The findings of one rule under a configuration. -/
def Rule.findingsUnder (rule : Rule) (config : Config) (source : Text) : List Finding :=
  if config.enables rule then
    (rule.findings source).map fun finding => finding.withSeverity (config.severityOf rule)
  else
    []

/-- The findings of all enabled rules, in the order of the rules. -/
def inspect (source : Text) (config : Config) : List Finding :=
  Rule.all.flatMap fun rule => rule.findingsUnder config source

/-- Only the states and severities of the rules matter to an inspection. -/
theorem inspect_congr {first second : Config} (source : Text)
    (sameStates : ∀ rule, first.stateOf rule = second.stateOf rule)
    (sameSeverities : ∀ rule, first.severityOf rule = second.severityOf rule) :
    inspect source first = inspect source second := by
  unfold inspect
  congr 1
  funext rule
  unfold Rule.findingsUnder Config.enables
  rw [sameStates rule, sameSeverities rule]

/-- A configuration and its completion lead to the same findings. -/
theorem inspect_complete (source : Text) {config : Config} (distinct : config.Distinct) :
    inspect source config.complete = inspect source config :=
  inspect_congr source (Config.stateOf_complete distinct) (Config.severityOf_complete distinct)

end JuliaLint

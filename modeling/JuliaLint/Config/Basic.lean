import JuliaLint.Rule.Basic
import JuliaLint.Table

namespace JuliaLint

/-!
Configurations.  A configuration has two tables keyed by rule codes: the state
of a rule, and the severity of its findings.  Either table may be incomplete
and may name codes of no rule.  A rule without a state is on, and a rule
without a severity has its default; the state `warn` decides the severity by
itself.
-/

/-- Whether a rule runs, and whether its findings are warnings in any case. -/
inductive State where
  | on
  | off
  | warn
  deriving DecidableEq, Repr

namespace State

def name : State → String
  | on => "on"
  | off => "off"
  | warn => "warn"

def all : List State :=
  [on, off, warn]

def ofName? (word : String) : Option State :=
  all.find? fun state => state.name == word

end State

/-- Which rules run and how serious their findings are. -/
structure Config where
  states : Table State
  severities : Table Severity
  deriving DecidableEq, Repr

namespace Config

/-- The configuration that says nothing. -/
def empty : Config where
  states := []
  severities := []

def stateOf (config : Config) (rule : Rule) : State :=
  (config.states.lookup rule.code).getD .on

def enables (config : Config) (rule : Rule) : Bool :=
  config.stateOf rule != .off

def severityOf (config : Config) (rule : Rule) : Severity :=
  if config.stateOf rule = .warn then
    .warning
  else
    (config.severities.lookup rule.code).getD rule.defaultSeverity

/-- Every rule on, with its default severity. -/
def standard : Config where
  states := Rule.all.map fun rule => (rule.code, .on)
  severities := Rule.all.map fun rule => (rule.code, rule.defaultSeverity)

/-- The standard configuration with the entries of this one put into it. -/
def complete (config : Config) : Config where
  states := standard.states.overlay config.states
  severities := standard.severities.overlay config.severities

/-- No code has two entries in one of the tables. -/
structure Distinct (config : Config) : Prop where
  states : (config.states.map Prod.fst).Nodup
  severities : (config.severities.map Prod.fst).Nodup

private theorem lookup_map_code {α : Type} (entry : Rule → α) (rules : List Rule)
    {rule : Rule} (member : rule ∈ rules) :
    (rules.map fun each => (each.code, entry each)).lookup rule.code = some (entry rule) := by
  induction rules with
  | nil => cases member
  | cons first rules ih =>
      by_cases same : rule = first
      · simp [same]
      · have differs : (rule.code == first.code) = false :=
          beq_false_of_ne fun equal => same (Rule.code_injective equal)
        have later : rule ∈ rules := (List.mem_cons.mp member).resolve_left same
        simpa [List.lookup_cons, differs] using ih later

theorem lookup_states_standard (rule : Rule) :
    standard.states.lookup rule.code = some .on :=
  lookup_map_code _ _ rule.mem_all

theorem lookup_severities_standard (rule : Rule) :
    standard.severities.lookup rule.code = some rule.defaultSeverity :=
  lookup_map_code _ _ rule.mem_all

private theorem or_some_eq_getD {α : Type} (own? : Option α) (other : α) :
    own?.or (some other) = some (own?.getD other) := by
  cases own? <;> rfl

section Completion

variable {config : Config} (distinct : config.Distinct) (rule : Rule)

include distinct

theorem lookup_states_complete :
    config.complete.states.lookup rule.code =
      some ((config.states.lookup rule.code).getD .on) := by
  rw [complete, Table.lookup_overlay, Table.lookup_reverse distinct.states,
    lookup_states_standard, or_some_eq_getD]

theorem lookup_severities_complete :
    config.complete.severities.lookup rule.code =
      some ((config.severities.lookup rule.code).getD rule.defaultSeverity) := by
  rw [complete, Table.lookup_overlay, Table.lookup_reverse distinct.severities,
    lookup_severities_standard, or_some_eq_getD]

/-- Filling the gaps with defaults changes the state of no rule. -/
theorem stateOf_complete : config.complete.stateOf rule = config.stateOf rule := by
  unfold stateOf
  rw [lookup_states_complete distinct, Option.getD_some]

/-- Filling the gaps with defaults changes the severity of no rule. -/
theorem severityOf_complete : config.complete.severityOf rule = config.severityOf rule := by
  unfold severityOf
  rw [stateOf_complete distinct, lookup_severities_complete distinct, Option.getD_some]

end Completion

end Config
end JuliaLint

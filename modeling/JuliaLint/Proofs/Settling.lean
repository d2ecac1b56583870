import JuliaLint.Proofs.Rewriting

namespace JuliaLint

/-!
# Linting again settles

Removing quotes pairs the remaining ones differently, so a repaired script may
hold new quoted membership tests, and linting it again may repair it again.
Every negated test is at least three units shorter than what it replaces.  A
round of linting therefore either leaves the script alone, and then so does
every later round, or shortens it by three units for each edit.
-/

/-- The script after a number of rounds, each of which lints what the last gave back. -/
def scriptAfter (config : Config) (source : Text) : (rounds : Nat) → Text
  | 0 => source
  | rounds + 1 => (lint (scriptAfter config source rounds) config).script

theorem scriptAfter_succ (config : Config) (source : Text) (rounds : Nat) :
    scriptAfter config source (rounds + 1) =
      scriptAfter config (lint source config).script rounds := by
  induction rounds with
  | zero => rfl
  | succ rounds ih =>
      rw [scriptAfter, ih]
      rfl

/-- Repeated linting reports on these scripts. -/
theorem lintRepeatedly_eq_map (config : Config) (rounds : Nat) (source : Text) :
    lintRepeatedly config rounds source =
      (List.range rounds).map fun round => lint (scriptAfter config source round) config := by
  induction rounds generalizing source with
  | zero => rfl
  | succ rounds ih =>
      rw [lintRepeatedly, ih, List.range_succ_eq_map, List.map_cons, List.map_map]
      simp only [Function.comp_def, scriptAfter_succ]
      rfl

/-! ## One round -/

open NegatedMembership

/-- The rule reports once, with an edit for each of its matches. -/
theorem findingsUnder_eq_singleton {source : Text} {config : Config}
    (reported : Rule.negatedMembership.findingsUnder config source ≠ []) :
    ∃ finding, Rule.negatedMembership.findingsUnder config source = [finding] ∧
      finding.edits.length = (expression.occurrences source).length := by
  have patches := patches_of_findings reported
  have atMostOne := length_negatedMembership_le_one source config
  have positive := List.length_pos_iff.mpr reported
  have exactlyOne : (Rule.negatedMembership.findingsUnder config source).length = 1 := by
    omega
  rcases List.length_eq_one_iff.mp exactlyOne with ⟨finding, single⟩
  refine ⟨finding, single, ?_⟩
  have lengths := congrArg List.length patches
  rw [single, List.flatMap_singleton, Finding.patches, List.length_map, List.length_map]
    at lengths
  exact lengths

/-- A reported script has a match. -/
theorem occurrences_ne_nil {source : Text} {config : Config}
    (reported : Rule.negatedMembership.findingsUnder config source ≠ []) :
    expression.occurrences source ≠ [] := by
  intro noneFound
  apply reported
  simp [Rule.findingsUnder, Rule.findings, findings, noneFound]

theorem length_substitute_le (source : Text) :
    (expression.substitute Membership.negated source).length +
      3 * (expression.occurrences source).length ≤ source.length :=
  Pattern.length_substituteFrom_le expression_advances
    (fun _ _ _ _ found => length_negated_add_three_le found) [] source

/-- A repair shortens the script by three units for each edit. -/
theorem length_script_le {source : Text} {config : Config}
    (repaired : (lint source config).isRepaired = true) :
    ∃ finding, Report.repairing (lint source config).listed = [finding] ∧
      finding.edits ≠ [] ∧
      (lint source config).script.length + 3 * finding.edits.length ≤ source.length := by
  rcases isRepaired_lint_iff.mp repaired with ⟨allListed, reported⟩
  rcases findingsUnder_eq_singleton reported with ⟨finding, single, editCount⟩
  refine ⟨finding, ?_, ?_, ?_⟩
  · rw [listed_lint, repairing_listed, if_pos allListed, single]
  · intro noEdits
    rw [noEdits, List.length_nil] at editCount
    exact occurrences_ne_nil reported (List.length_eq_zero_iff.mp editCount.symm)
  · rw [script_lint_of_repaired repaired, repairAll_of_findings reported, editCount]
    exact length_substitute_le source

/-! ## All rounds -/

/-- Every round so far has taken three units, unless one of them repaired nothing. -/
private theorem settled_or_shorter (config : Config) (source : Text) (rounds : Nat) :
    (∃ settled < rounds,
        (lint (scriptAfter config source settled) config).isRepaired = false) ∨
      (scriptAfter config source rounds).length + 3 * rounds ≤ source.length := by
  induction rounds with
  | zero => exact Or.inr (Nat.le_refl _)
  | succ rounds ih =>
      rcases ih with ⟨settled, earlier, unrepaired⟩ | shorter
      · exact Or.inl ⟨settled, Nat.lt_succ_of_lt earlier, unrepaired⟩
      · cases outcome : (lint (scriptAfter config source rounds) config).isRepaired with
        | false => exact Or.inl ⟨rounds, Nat.lt_succ_self rounds, outcome⟩
        | true =>
            rcases length_script_le outcome with ⟨finding, _, someEdits, shrunk⟩
            have positive := List.length_pos_iff.mpr someEdits
            refine Or.inr ?_
            rw [scriptAfter]
            omega

/-- After a round that repairs nothing the script stays as it is. -/
private theorem scriptAfter_of_settled {config : Config} {source : Text} {settled : Nat}
    (unrepaired : (lint (scriptAfter config source settled) config).isRepaired = false)
    (more : Nat) :
    scriptAfter config source (settled + more) = scriptAfter config source settled := by
  induction more with
  | zero => rfl
  | succ more ih =>
      rw [← Nat.add_assoc, scriptAfter, ih]
      exact script_lint_of_not_repaired unrepaired

/--
Linting what a report gives back settles.  Each round that repairs the script
lists one repairing finding and shortens the script by three units for each of
its edits, so after at most a third as many rounds as the source has units
nothing is repaired any more and the script stays the same.
-/
theorem scriptAfter_settles (source : Text) (config : Config) :
    (∀ round, (lint (scriptAfter config source round) config).isRepaired = true →
      ∃ finding,
        Report.repairing (lint (scriptAfter config source round) config).listed = [finding] ∧
        (scriptAfter config source (round + 1)).length + 3 * finding.edits.length ≤
          (scriptAfter config source round).length) ∧
    ∃ settled ≤ source.length / 3,
      (lint (scriptAfter config source settled) config).isRepaired = false ∧
      ∀ round ≥ settled,
        scriptAfter config source round = scriptAfter config source settled := by
  constructor
  · intro round repaired
    rcases length_script_le repaired with ⟨finding, single, _, shrunk⟩
    exact ⟨finding, single, shrunk⟩
  · rcases settled_or_shorter config source (source.length / 3 + 1) with
      ⟨settled, within, unrepaired⟩ | impossible
    · refine ⟨settled, Nat.le_of_lt_succ within, unrepaired, ?_⟩
      intro round later
      rcases Nat.exists_eq_add_of_le later with ⟨more, rfl⟩
      exact scriptAfter_of_settled unrepaired more
    · exfalso
      omega

/-- The operand of the first test holds a second one, so the script is repaired
twice before it settles. -/
theorem scriptAfter_of_nested_tests :
    let source : Text := "\"a\" not in \"b\" not in c"
    (lint (scriptAfter Config.empty source 1) Config.empty).isRepaired = true ∧
      (∃ finding,
        Report.repairing (lint (scriptAfter Config.empty source 1) Config.empty).listed =
          [finding] ∧
        (scriptAfter Config.empty source 2).length + 3 * finding.edits.length ≤
          (scriptAfter Config.empty source 1).length) ∧
      scriptAfter Config.empty source 2 = "!a in !b in c" := by
  refine ⟨by decide +kernel, ?_, by decide +kernel⟩
  exact (scriptAfter_settles _ _).1 1 (by decide +kernel)

end JuliaLint

import JuliaLint.Proofs.MembershipGrammar
import JuliaLint.Proofs.Patchwork
import JuliaLint.Proofs.Reporting

namespace JuliaLint

/-!
# The repair of a script is one substitution pass

A report repairs a script by patches: each match becomes a pair of offsets, the
offsets go through positions, and the patches are ranked, sifted and spliced.
Substituting does none of this; it writes the repaired script in one walk over
the units.  Both give the patchwork of the occurrences, which ascend and never
overlap, so every patch is kept and nothing outside the matches moves.
-/

/-! ## Substitution as a patchwork -/

/-- The patch that puts the rendered capture in the place of a match. -/
def Occurrence.patch {α : Type} (code : String) (render : α → Text)
    (occurrence : Occurrence α) : Patch where
  code := code
  applicable := true
  start := occurrence.start
  stop := occurrence.stop
  replacement := render occurrence.capture

/-- A patchwork copies the next unit if all patches start behind it. -/
theorem Text.patchwork_copy (lead ahead : Text) (unit : CodeUnit) (patches : List Patch)
    (behind : ∀ patch ∈ patches, (lead.length + 1 : Int) ≤ patch.start) :
    patchwork (lead ++ unit :: ahead) lead.length patches =
      unit :: patchwork (lead ++ unit :: ahead) (lead.length + 1) patches := by
  have split : lead ++ unit :: ahead = (lead ++ [unit]) ++ ahead := by simp
  cases patches with
  | nil =>
      simp only [patchwork]
      rw [List.drop_left, split, List.drop_left' (by simp)]
  | cons patch patches =>
      have startsBehind := behind patch List.mem_cons_self
      rcases Nat.exists_eq_add_of_lt (show lead.length < patch.start.toNat by omega) with
          ⟨more, startEq⟩
      have taken : (lead ++ unit :: ahead).take patch.start.toNat =
          lead ++ unit :: ahead.take more := by
        rw [startEq, Nat.add_assoc, List.take_length_add_append, List.take_succ_cons]
      have takenSplit : lead ++ unit :: ahead.take more =
          (lead ++ [unit]) ++ ahead.take more := by simp
      simp only [patchwork]
      rw [taken, List.drop_left, takenSplit, List.drop_left' (by simp)]
      rfl

namespace Pattern

variable {α : Type} {pattern : Pattern α} (advances : pattern.Advances)

include advances

/-- Substituting walks along the patchwork of the occurrences. -/
theorem substituteFrom_eq_patchwork (code : String) (render : α → Text)
    (before ahead : Text) :
    substituteFrom pattern render before 0 ahead =
      Text.patchwork (before.reverse ++ ahead) before.length
        ((scanFrom pattern before 0 ahead).map (Occurrence.patch code render)) := by
  induction before, ahead using walk_induction advances with
  | finished before =>
      simp only [substituteFrom, scanFrom, List.map_nil, Text.patchwork, List.append_nil]
      rw [List.drop_of_length_le (by simp)]
  | refused before unit ahead outcome ih =>
      have behind : ∀ patch ∈ (scanFrom pattern (unit :: before) 0 ahead).map
          (Occurrence.patch code render),
          (before.reverse.length + 1 : Int) ≤ patch.start := by
        intro patch member
        rcases List.mem_map.mp member with ⟨occurrence, occurrenceMember, rfl⟩
        have within := (scanFrom_within advances _ _ occurrence occurrenceMember).1
        simp only [Occurrence.patch, List.length_reverse, List.length_cons] at within ⊢
        omega
      have copied := Text.patchwork_copy before.reverse ahead unit _ behind
      rw [scanFrom_of_refused outcome, substituteFrom_of_refused render outcome, ih]
      simpa using copied.symm
  | accepted before matched capture rest nonempty outcome ih =>
      have noGap : ((before.reverse ++ (matched ++ rest)).take before.length).drop
          before.length = [] :=
        List.drop_of_length_le (List.length_take_le _ _)
      have sameSource : (matched.reverse ++ before).reverse ++ rest =
          before.reverse ++ (matched ++ rest) := by
        simp
      have samePlace : (matched.reverse ++ before).length =
          before.length + matched.length := by
        rw [List.length_append, List.length_reverse, Nat.add_comm]
      rw [scanFrom_of_accepted nonempty outcome,
        substituteFrom_of_accepted render nonempty outcome, ih, sameSource, samePlace,
        List.map_cons, Text.patchwork]
      simp only [Occurrence.patch, Occurrence.stop, Int.toNat_natCast, noGap, List.nil_append]

theorem substitute_eq_patchwork (code : String) (render : α → Text) (text : Text) :
    pattern.substitute render text =
      text.patchwork 0 ((pattern.occurrences text).map (Occurrence.patch code render)) :=
  substituteFrom_eq_patchwork advances code render [] text

/-- Repairing a text at all occurrences of a pattern is substituting. -/
theorem repair_occurrences (code : String) (render : α → Text) (text : Text) :
    repair text ((pattern.occurrences text).map (Occurrence.patch code render)) =
      { text := pattern.substitute render text
        applied := ((pattern.occurrences text).map (Occurrence.patch code render)).reverse
        skipped := [] } := by
  rw [substitute_eq_patchwork advances code render text]
  apply repair_of_ascending
  · intro patch member
    rcases List.mem_map.mp member with ⟨occurrence, _, rfl⟩
    rfl
  · intro patch member
    rcases List.mem_map.mp member with ⟨occurrence, occurrenceMember, rfl⟩
    have within := scanFrom_within advances [] text occurrence occurrenceMember
    simp only [Occurrence.patch, List.length_nil] at within ⊢
    omega
  · apply List.pairwise_map.mpr
    refine (scanFrom_ascending advances [] text).imp ?_
    intro earlier later behind
    exact Int.ofNat_le.mpr behind

end Pattern

/-! ## The patches of the negated membership tests -/

namespace NegatedMembership

/-- The edit of an occurrence denotes the range of its match. -/
private theorem patch_of_edit {source : Text} {occurrence : Occurrence Membership}
    (listed : occurrence ∈ expression.occurrences source) (code : String) :
    ({ code := code
       applicable := (edit source occurrence).applicable
       start := (edit source occurrence).start.offset
       stop := (edit source occurrence).stop.offset
       replacement := (edit source occurrence).replacement } : Patch) =
      occurrence.patch code Membership.negated := by
  have within := Pattern.scanFrom_within expression_advances [] source occurrence listed
  have startInside : occurrence.start ≤ source.length := by
    simp only [List.length_nil] at within
    omega
  have stopInside : occurrence.stop ≤ source.length := by
    simp only [List.length_nil] at within
    omega
  have startOffset : (source.positionAt occurrence.start).offset = occurrence.start :=
    Text.clamp_of_le startInside
  have stopOffset : (source.positionAt occurrence.stop).offset = occurrence.stop :=
    Text.clamp_of_le stopInside
  simp only [edit, Occurrence.patch, startOffset, stopOffset]

/-- If the rule reports, its patches are those of all occurrences. -/
theorem patches_of_findings {source : Text} {config : Config}
    (reported : Rule.negatedMembership.findingsUnder config source ≠ []) :
    (Rule.negatedMembership.findingsUnder config source).flatMap Finding.patches =
      (expression.occurrences source).map
        (Occurrence.patch Rule.negatedMembership.code Membership.negated) := by
  unfold Rule.findingsUnder at reported ⊢
  split
  · next enabled =>
    rw [if_pos enabled] at reported
    simp only [Rule.findings, findings_eq] at reported ⊢
    split
    · split
      · next noneFound => simp [noneFound] at reported
      · next first others found =>
        rw [List.map_singleton, List.flatMap_singleton, ← found]
        simp only [Finding.patches, Finding.withSeverity, Rule.finding, List.map_map]
        apply List.map_congr_left
        intro occurrence member
        exact patch_of_edit member _
    · next absent => simp [absent] at reported
  · next disabled => simp [disabled] at reported

/-- If the rule reports, the repair by all findings is the substitution pass. -/
theorem repairAll_of_findings {source : Text} {config : Config}
    (reported : Rule.negatedMembership.findingsUnder config source ≠ []) :
    repairAll source config =
      { text := expression.substitute Membership.negated source
        applied := ((expression.occurrences source).map
          (Occurrence.patch Rule.negatedMembership.code Membership.negated)).reverse
        skipped := [] } := by
  rw [repairAll, patches_inspect, patches_of_findings reported]
  exact Pattern.repair_occurrences expression_advances _ _ source

/-- If the rule is silent, nothing is repaired. -/
theorem repairAll_of_silent {source : Text} {config : Config}
    (silent : Rule.negatedMembership.findingsUnder config source = []) :
    repairAll source config = { text := source, applied := [], skipped := [] } := by
  rw [repairAll, patches_inspect, silent]
  rfl

/-- No patch of a finding ever overlaps another one. -/
theorem skipped_repairAll (source : Text) (config : Config) :
    (repairAll source config).skipped = [] := by
  by_cases silent : Rule.negatedMembership.findingsUnder config source = []
  · rw [repairAll_of_silent silent]
  · rw [repairAll_of_findings silent]

/--
A repaired script is the source with every quoted membership test negated, in
one walk from left to right.  Whenever the rule reports, whether or not its
finding is listed, the repair by all findings makes one patch for each match, over
just the range of that match; it makes none otherwise, and never skips any.
-/
theorem script_eq_substitute (source : Text) (config : Config) :
    ((lint source config).isRepaired = true →
      Rule.negatedMembership.findingsUnder config source ≠ [] ∧
      (lint source config).script = expression.substitute Membership.negated source) ∧
    (Rule.negatedMembership.findingsUnder config source ≠ [] →
      (repairAll source config).text = expression.substitute Membership.negated source ∧
      (repairAll source config).applied.reverse =
        (expression.occurrences source).map
          (Occurrence.patch Rule.negatedMembership.code Membership.negated) ∧
      (repairAll source config).applied.length = (expression.occurrences source).length) ∧
    (Rule.negatedMembership.findingsUnder config source = [] →
      (repairAll source config).text = source ∧ (repairAll source config).applied = []) ∧
    (repairAll source config).skipped = [] := by
  refine ⟨?_, ?_, ?_, skipped_repairAll source config⟩
  · intro repaired
    have reported := (isRepaired_lint_iff.mp repaired).2
    refine ⟨reported, ?_⟩
    rw [script_lint_of_repaired repaired, repairAll_of_findings reported]
  · intro reported
    rw [repairAll_of_findings reported]
    refine ⟨rfl, List.reverse_reverse _, ?_⟩
    rw [List.length_reverse, List.length_map]
  · intro silent
    rw [repairAll_of_silent silent]
    exact ⟨rfl, rfl⟩

/-- Quotes of either kind, an operand that ends with a parenthesis, and one that
ends with the text. -/
theorem script_of_two_tests :
    let source : Text := "f(\"a\" not in xs) && 'b' not in ys"
    (lint source Config.empty).isRepaired = true ∧
      (lint source Config.empty).script = "f(!a in xs) && ! in ys" ∧
      (repairAll source Config.empty).applied.length = 2 := by
  intro source
  have repaired : (lint source Config.empty).isRepaired = true := by decide +kernel
  rcases script_eq_substitute source Config.empty with ⟨script, patches, _, _⟩
  rcases script repaired with ⟨reported, rewritten⟩
  have two : (expression.occurrences source).length = 2 := by decide +kernel
  exact ⟨repaired, rewritten.trans (by decide), (patches reported).2.2.trans two⟩

end NegatedMembership
end JuliaLint

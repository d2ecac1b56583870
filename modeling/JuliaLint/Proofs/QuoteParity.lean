import JuliaLint.Proofs.MembershipReading
import JuliaLint.Proofs.Settling

namespace JuliaLint

/-!
# Quotation marks before and after a repair

A negated test loses the two marks around its quoted text.  The content of
double quotes is kept with all apostrophes in it, while the content of
apostrophes is dropped, and double quotes in it are lost too.  The number of
marks in a repaired script is therefore known from the matches in the source,
and the parity of marks changes exactly with the parity of the dropped ones.
-/

/-! ## Counting along a walk -/

/--
If every match loses a margin and what is counted in a text that it drops, the
whole text loses the margin for each match and what is counted in all that is
dropped.
-/
theorem Pattern.countP_substituteFrom {α : Type} {pattern : Pattern α}
    (advances : pattern.Advances) {counted lost : CodeUnit → Bool} {render dropped : α → Text}
    {margin : Nat}
    (loses : ∀ (before matched rest : Text) (capture : α),
      pattern before (matched ++ rest) = some (capture, rest) →
        (render capture).countP counted + margin + (dropped capture).countP lost =
          matched.countP counted)
    (before ahead : Text) :
    (substituteFrom pattern render before 0 ahead).countP counted +
      margin * (scanFrom pattern before 0 ahead).length +
      ((scanFrom pattern before 0 ahead).flatMap fun occurrence =>
        dropped occurrence.capture).countP lost = ahead.countP counted := by
  induction before, ahead using walk_induction advances with
  | finished before => simp [substituteFrom, scanFrom]
  | refused before unit ahead outcome ih =>
      rw [scanFrom_of_refused outcome, substituteFrom_of_refused render outcome,
        List.countP_cons, List.countP_cons]
      omega
  | accepted before matched capture rest nonempty outcome ih =>
      rw [scanFrom_of_accepted nonempty outcome,
        substituteFrom_of_accepted render nonempty outcome]
      have shrunk := loses _ _ _ _ outcome
      simp only [List.countP_append, List.length_cons, List.flatMap_cons, Nat.mul_add,
        Nat.mul_one]
      omega

namespace NegatedMembership

open QuoteBalance

/-! ## The marks of one match -/

/-- What the negated test drops of the quoted text. -/
def Membership.dropped (membership : Membership) : Text :=
  if membership.quote = CodeUnit.singleQuote then membership.content else []

theorem quoteCount_of_isBlank {text : Text} (blank : Text.isBlank text = true) :
    quoteCount text = 0 := by
  apply List.countP_eq_zero.mpr
  intro unit member isMark
  have unitBlank := List.all_eq_true.mp blank unit member
  rcases isQuote_iff.mp isMark with rfl | rfl
  · exact absurd unitBlank (by decide)
  · exact absurd unitBlank (by decide)

/-- Without apostrophes only double quotes count. -/
theorem quoteCount_of_not_mem {text : Text} (absent : CodeUnit.singleQuote ∉ text) :
    quoteCount text = text.count CodeUnit.doubleQuote := by
  apply List.countP_congr
  intro unit member
  have notApostrophe : unit ≠ CodeUnit.singleQuote := by
    rintro rfl
    exact absent member
  rw [isQuote_iff, beq_iff_eq]
  exact or_iff_left notApostrophe

/-- The marks of the quoted text are kept, or they are double quotes that are dropped. -/
theorem quoteCount_element_add {membership : Membership} {spacing : Spacing}
    (spelled : membership.IsSpelled spacing) :
    quoteCount membership.element + membership.dropped.count CodeUnit.doubleQuote =
      quoteCount membership.content := by
  have different : CodeUnit.doubleQuote ≠ CodeUnit.singleQuote := by decide
  unfold Membership.element Membership.dropped
  rcases spelled.quote_isMark with isDouble | isSingle
  · rw [isDouble, if_pos rfl, if_neg different]
    rfl
  · have absent : CodeUnit.singleQuote ∉ membership.content :=
      isSingle ▸ spelled.quote_not_mem
    rw [isSingle, if_pos rfl, if_neg different.symm, quoteCount_of_not_mem absent]
    exact Nat.zero_add _

theorem quoteCount_spelling {membership : Membership} {spacing : Spacing}
    (spelled : membership.IsSpelled spacing) :
    quoteCount (membership.spelling spacing) =
      quoteCount membership.content + quoteCount membership.operand + 2 := by
  have isMark : isQuote membership.quote = true := isQuote_iff.mpr spelled.quote_isMark
  have inNot : List.countP isQuote (Text.ofString "not") = 0 := by decide
  have inIn : List.countP isQuote (Text.ofString "in") = 0 := by decide
  have beforeNot : List.countP isQuote spacing.beforeNot = 0 :=
    quoteCount_of_isBlank spelled.beforeNot_blank
  have beforeIn : List.countP isQuote spacing.beforeIn = 0 :=
    quoteCount_of_isBlank spelled.beforeIn_blank
  have beforeOperand : List.countP isQuote spacing.beforeOperand = 0 :=
    quoteCount_of_isBlank spelled.beforeOperand_blank
  simp only [quoteCount, Membership.spelling, List.countP_cons, List.countP_append, isMark,
    inNot, inIn, beforeNot, beforeIn, beforeOperand, if_true]
  omega

theorem quoteCount_negated (membership : Membership) :
    quoteCount membership.negated =
      quoteCount membership.element + quoteCount membership.operand := by
  have inMark : List.countP isQuote (Text.ofString "!") = 0 := by decide
  have inIn : List.countP isQuote (Text.ofString " in ") = 0 := by decide
  simp only [quoteCount, Membership.negated, List.countP_append, inMark, inIn]
  omega

/-- A match loses its own two marks and the double quotes that are dropped. -/
theorem quoteCount_negated_add {before matched rest : Text} {membership : Membership}
    (found : expression before (matched ++ rest) = some (membership, rest)) :
    quoteCount membership.negated + 2 + membership.dropped.count CodeUnit.doubleQuote =
      quoteCount matched := by
  rcases eq_spelling_of_expression found with ⟨spacing, spelled, split⟩
  have matchedSpelling : matched = membership.spelling spacing := List.append_cancel_right split
  have kept := quoteCount_element_add spelled
  rw [matchedSpelling, quoteCount_spelling spelled, quoteCount_negated]
  omega

/-! ## The marks of a script -/

/-- The number of double quotes in the texts that are dropped with their apostrophes. -/
def droppedQuotes (source : Text) : Nat :=
  ((expression.occurrences source).flatMap fun occurrence =>
    occurrence.capture.dropped).count CodeUnit.doubleQuote

theorem quoteCount_substitute_add (source : Text) :
    quoteCount (expression.substitute Membership.negated source) +
      2 * (expression.occurrences source).length + droppedQuotes source =
        quoteCount source :=
  Pattern.countP_substituteFrom expression_advances
    (fun _ _ _ _ found => quoteCount_negated_add found) [] source

/-- Without matches in apostrophes nothing is dropped. -/
theorem droppedQuotes_eq_zero {source : Text}
    (allDouble : ∀ occurrence ∈ expression.occurrences source,
      occurrence.capture.quote = CodeUnit.doubleQuote) : droppedQuotes source = 0 := by
  have different : CodeUnit.doubleQuote ≠ CodeUnit.singleQuote := by decide
  have nothing : ((expression.occurrences source).flatMap fun occurrence =>
      occurrence.capture.dropped) = [] := by
    apply List.flatMap_eq_nil_iff.mpr
    intro occurrence listed
    rw [Membership.dropped, allDouble occurrence listed, if_neg different]
  rw [droppedQuotes, nothing]
  rfl

end NegatedMembership

theorem QuoteBalance.findings_eq_findings_iff {first second : Text} :
    findings first = findings second ↔ quoteCount first % 2 = quoteCount second % 2 := by
  unfold findings
  rcases Nat.mod_two_eq_zero_or_one (quoteCount first) with one | one <;>
    rcases Nat.mod_two_eq_zero_or_one (quoteCount second) with other | other <;>
      simp [one, other]

open NegatedMembership in
/--
A repair takes two quotation marks for each edit and the double quotes in the
dropped texts.  The rule on quotation marks therefore says the same of the
repaired script and of the source unless the number of these double quotes is
odd, and always says the same if all matches are in double quotes.
-/
theorem quoteBalance_of_repaired (source : Text) (config : Config)
    (repaired : (lint source config).isRepaired = true) :
    (∃ finding, Report.repairing (lint source config).listed = [finding] ∧
      QuoteBalance.quoteCount (lint source config).script + 2 * finding.edits.length +
        droppedQuotes source = QuoteBalance.quoteCount source) ∧
    (Rule.quoteBalance.findings (lint source config).script ≠
        Rule.quoteBalance.findings source ↔ droppedQuotes source % 2 = 1) ∧
    ((∀ occurrence ∈ expression.occurrences source,
        occurrence.capture.quote = CodeUnit.doubleQuote) →
      Rule.quoteBalance.findings (lint source config).script =
        Rule.quoteBalance.findings source) := by
  rcases isRepaired_lint_iff.mp repaired with ⟨allListed, reported⟩
  rcases findingsUnder_eq_singleton reported with ⟨finding, single, editCount⟩
  have script : (lint source config).script = expression.substitute Membership.negated source := by
    rw [script_lint_of_repaired repaired, repairAll_of_findings reported]
  have count := quoteCount_substitute_add source
  rw [script]
  simp only [Rule.findings]
  refine ⟨⟨finding, ?_, ?_⟩, ?_, ?_⟩
  · rw [listed_lint, repairing_listed, if_pos allListed, single]
  · rw [editCount]
    exact count
  · rw [ne_eq, QuoteBalance.findings_eq_findings_iff]
    omega
  · intro allDouble
    rw [QuoteBalance.findings_eq_findings_iff]
    have nothing := droppedQuotes_eq_zero allDouble
    omega

open NegatedMembership in
/-- One of six marks is left: a double quote goes with the apostrophes around it,
while an apostrophe inside double quotes stays.  The second test alone keeps the
parity. -/
theorem quoteBalance_of_dropped_mark :
    let mixed : Text := "'a\"b' not in xs, \"c'd\" not in ys"
    let double : Text := "\"c'd\" not in ys"
    ((lint mixed Config.empty).isRepaired = true ∧ droppedQuotes mixed = 1 ∧
      QuoteBalance.quoteCount mixed = 6 ∧
      Rule.quoteBalance.findings (lint mixed Config.empty).script ≠
        Rule.quoteBalance.findings mixed) ∧
    ((lint double Config.empty).isRepaired = true ∧
      Rule.quoteBalance.findings (lint double Config.empty).script =
        Rule.quoteBalance.findings double) := by
  intro mixed double
  have mixedRepaired : (lint mixed Config.empty).isRepaired = true := by decide +kernel
  have doubleRepaired : (lint double Config.empty).isRepaired = true := by decide +kernel
  have odd : droppedQuotes mixed % 2 = 1 := by decide +kernel
  have allDouble : ∀ occurrence ∈ expression.occurrences double,
      occurrence.capture.quote = CodeUnit.doubleQuote := by
    decide +kernel
  refine ⟨⟨mixedRepaired, by decide +kernel, by decide +kernel, ?_⟩, doubleRepaired, ?_⟩
  · exact (quoteBalance_of_repaired mixed Config.empty mixedRepaired).2.1.mpr odd
  · exact (quoteBalance_of_repaired double Config.empty doubleRepaired).2.2 allDouble

end JuliaLint

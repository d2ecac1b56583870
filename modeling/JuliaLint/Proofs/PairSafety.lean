import JuliaLint.Proofs.MatchShapes
import JuliaLint.Proofs.RewriteGrammar
import JuliaLint.Proofs.Settling
import JuliaLint.Proofs.WellFormedText

namespace JuliaLint

/-!
# No surrogate pair is cut

Patterns and offsets count code units, and an edit is spliced in wherever its
offsets say.  Still a well-formed script stays well formed.  Every match starts
with a plain unit, a letter or a quotation mark, and every match ends behind a
plain unit or in front of one.  So no pair reaches across either end of a match,
and the same holds for what a match captures.

From this the findings of every rule show well-formed texts and point between
characters, and a substitution pass puts well-formed pieces together.
-/

/-! ## Patterns whose matches lie between characters -/

namespace Pattern

variable {α : Type}

/--
No surrogate pair reaches across the start or the end of a match, and what is
captured from well-formed units is whole.
-/
def KeepsPairs (pattern : Pattern α) (whole : α → Prop) : Prop :=
  ∀ (before ahead : Text) (capture : α) (rest : Text),
    pattern before ahead = some (capture, rest) →
      ∃ matched : Text, matched ≠ [] ∧ ahead = matched ++ rest ∧
        (∀ front, Text.cutsPair front ahead = false) ∧ Text.cutsPair matched rest = false ∧
        (Text.isWellFormed matched = true → whole capture)

namespace KeepsPairs

variable {pattern : Pattern α} {whole : α → Prop} (keeps : pattern.KeepsPairs whole)

include keeps

theorem advances : pattern.Advances := by
  intro before ahead capture rest found
  rcases keeps before ahead capture rest found with ⟨matched, nonempty, split, _⟩
  exact ⟨matched, nonempty, split⟩

/-- A match parts a well-formed text into well-formed pieces. -/
theorem parts_of_match {before lead matched rest : Text} {capture : α}
    (found : pattern before (matched ++ rest) = some (capture, rest))
    (wellFormed : Text.isWellFormed (lead ++ (matched ++ rest)) = true) :
    Text.isWellFormed lead = true ∧ Text.isWellFormed matched = true ∧
      Text.isWellFormed rest = true ∧ whole capture := by
  rcases keeps _ _ _ _ found with ⟨taken, _, split, startUncut, stopUncut, captured⟩
  obtain rfl : matched = taken := List.append_cancel_right split
  rw [Text.isWellFormed_append (startUncut lead), Text.isWellFormed_append stopUncut,
    Bool.and_eq_true, Bool.and_eq_true] at wellFormed
  rcases wellFormed with ⟨leadWhole, matchedWhole, restWhole⟩
  exact ⟨leadWhole, matchedWhole, restWhole, captured matchedWhole⟩

/-- The occurrences in a well-formed text are well formed and lie between characters. -/
theorem of_mem_occurrences {text : Text} (wellFormed : text.isWellFormed = true)
    {occurrence : Occurrence α} (listed : occurrence ∈ pattern.occurrences text) :
    text.cutsPairAt (text.positionAt occurrence.start).offset = false ∧
      text.cutsPairAt (text.positionAt occurrence.stop).offset = false ∧
      Text.isWellFormed occurrence.matched = true ∧ whole occurrence.capture := by
  rcases eq_append_of_mem_scanFrom keeps.advances listed with ⟨lead, rest, split, start, read⟩
  rw [split] at wellFormed
  rcases keeps.parts_of_match read wellFormed with
    ⟨_, matchedWhole, restWhole, captureWhole⟩
  have starts : (text.positionAt occurrence.start).offset = lead.length := by
    rw [start, List.length_nil, Nat.zero_add]
    apply Text.clamp_of_le
    rw [split, List.length_append]
    omega
  have stops : (text.positionAt occurrence.stop).offset = (lead ++ occurrence.matched).length := by
    rw [Occurrence.stop, start, List.length_nil, Nat.zero_add, ← List.length_append]
    apply Text.clamp_of_le
    simp only [split, List.length_append]
    omega
  refine ⟨?_, ?_, matchedWhole, captureWhole⟩
  · rw [starts, Text.cutsPairAt, split, List.drop_left]
    exact Text.cutsPair_of_isWellFormed (Text.isWellFormed_append_of matchedWhole restWhole) _
  · rw [stops, Text.cutsPairAt, split, ← List.append_assoc, List.drop_left]
    exact Text.cutsPair_of_isWellFormed restWhole _

/-- A walk that copies units may stand inside of a pair, so the units copied so
far are a part of the statement. -/
theorem isWellFormed_substituteFrom {render : α → Text}
    (rendered : ∀ capture, whole capture → Text.isWellFormed (render capture) = true)
    (before ahead lead : Text) (wellFormed : Text.isWellFormed (lead ++ ahead) = true) :
    Text.isWellFormed (lead ++ substituteFrom pattern render before 0 ahead) = true := by
  induction before, ahead using walk_induction keeps.advances generalizing lead with
  | finished before => exact wellFormed
  | refused before unit ahead outcome ih =>
      have copied := ih (lead ++ [unit]) (by rwa [List.append_assoc])
      rw [substituteFrom_of_refused render outcome]
      rwa [List.append_assoc] at copied
  | accepted before matched capture rest nonempty outcome ih =>
      rcases keeps.parts_of_match outcome wellFormed with
        ⟨leadWhole, _, restWhole, captureWhole⟩
      rw [substituteFrom_of_accepted render nonempty outcome]
      apply Text.isWellFormed_append_of leadWhole
      exact Text.isWellFormed_append_of (rendered capture captureWhole) (ih [] restWhole)

end KeepsPairs
end Pattern

/-! ## The patterns of the rules -/

/-- A clause stops in front of a line feed or a letter. -/
theorem CatchSyntax.cutsPair_of_stopsClause {rest : Text} (stops : stopsClause rest = true)
    (front : Text) : Text.cutsPair front rest = false := by
  rcases Bool.or_eq_true_iff.mp stops with atFeed | atEnd
  · cases rest with
    | nil => cases atFeed
    | cons unit rest =>
        obtain rfl : unit = CodeUnit.lineFeed := by simpa using atFeed
        exact Text.cutsPair_cons_of_plain (by decide) front rest
  · rcases Option.isSome_iff_exists.mp atEnd with ⟨behind, read⟩
    rw [Text.after?_eq_some_iff.mp read]
    exact Text.cutsPair_before_isPlain (by decide) (by decide) front behind

theorem CatchSyntax.clause_keepsPairs : clause.KeepsPairs fun _ => True := by
  intro before ahead capture rest found
  rcases eq_append_of_clause found with ⟨stops, body, rfl⟩
  refine ⟨"catch" ++ body, List.cons_ne_nil _ _, (List.append_assoc ..).symm, ?_, ?_,
    fun _ => trivial⟩
  · exact fun front => Text.cutsPair_before_isPlain (by decide) (by decide) front _
  · exact cutsPair_of_stopsClause stops _

theorem MultiCharLiteral.literal_keepsPairs :
    literal.KeepsPairs fun content => Text.isWellFormed content = true := by
  intro before ahead content rest found
  rw [eq_append_of_literal found]
  refine ⟨CodeUnit.singleQuote :: (content ++ [CodeUnit.singleQuote]), List.cons_ne_nil _ _,
    by simp, ?_, ?_, ?_⟩
  · exact fun front => Text.cutsPair_cons_of_plain (by decide) front _
  · rw [← List.cons_append]
    exact Text.cutsPair_append_singleton_of_plain (by decide) _ rest
  · rw [Text.isWellFormed_cons_of_plain (by decide),
      Text.isWellFormed_append_cons_of_plain (by decide), Bool.and_eq_true]
    exact And.left

theorem RedundantConversion.call_keepsPairs : call.KeepsPairs fun _ => True := by
  intro before ahead capture rest found
  rcases eq_append_of_call found with ⟨numeral, rfl⟩
  refine ⟨"T(" ++ numeral ++ [CodeUnit.closingParenthesis], List.cons_ne_nil _ _,
    by simp, ?_, ?_, fun _ => trivial⟩
  · exact fun front => Text.cutsPair_before_isPlain (by decide) (by decide) front _
  · exact Text.cutsPair_append_singleton_of_plain (by decide) _ rest

theorem VagueFilter.lambda_keepsPairs :
    lambda.KeepsPairs fun content => Text.isWellFormed content = true := by
  intro before ahead content rest found
  rcases eq_append_of_lambda found with ⟨body, rfl⟩
  refine ⟨"filter(tf -> \"" ++ (content ++ CodeUnit.doubleQuote :: (" not in " ++ body)) ++
    [CodeUnit.closingParenthesis], List.cons_ne_nil _ _, by simp, ?_, ?_, ?_⟩
  · exact fun front => Text.cutsPair_before_isPlain (by decide) (by decide) front _
  · exact Text.cutsPair_append_singleton_of_plain (by decide) _ rest
  · rw [List.append_assoc, Text.isWellFormed_append_of_isPlain_left (by decide),
      List.append_assoc, List.cons_append, Text.isWellFormed_append_cons_of_plain (by decide),
      Bool.and_eq_true]
    exact And.left

theorem ForeignOperator.wholeWord_keepsPairs : wholeWord.KeepsPairs fun _ => True := by
  intro before ahead word rest found
  have plain : Text.isPlain word.spelling = true ∧ word.spelling ≠ [] := by
    cases word <;> decide
  rw [eq_append_of_wholeWord found]
  refine ⟨word.spelling, plain.2, rfl, ?_, ?_, fun _ => trivial⟩
  · exact fun front => Text.cutsPair_before_isPlain plain.1 plain.2 front rest
  · exact Text.cutsPair_behind_isPlain plain.1 plain.2 [] rest

namespace NegatedMembership

theorem Membership.IsSpelled.quote_plain {membership : Membership} {spacing : Spacing}
    (spelled : membership.IsSpelled spacing) : membership.quote.isSurrogate = false := by
  rcases spelled.quote_isMark with isMark | isMark
  · rw [isMark]
    decide
  · rw [isMark]
    decide

/-- All of a spelling is plain but for the quoted text and the operand. -/
theorem isWellFormed_spelling {membership : Membership} {spacing : Spacing}
    (spelled : membership.IsSpelled spacing) :
    Text.isWellFormed (membership.spelling spacing) =
      (Text.isWellFormed membership.content && Text.isWellFormed membership.operand) := by
  rw [Membership.spelling, Text.isWellFormed_cons_of_plain spelled.quote_plain,
    Text.isWellFormed_append_cons_of_plain spelled.quote_plain,
    Text.isWellFormed_append_of_isPlain_left (Text.isPlain_of_isBlank spelled.beforeNot_blank),
    Text.isWellFormed_append_of_isPlain_left (by decide),
    Text.isWellFormed_append_of_isPlain_left (Text.isPlain_of_isBlank spelled.beforeIn_blank),
    Text.isWellFormed_append_of_isPlain_left (by decide),
    Text.isWellFormed_append_of_isPlain_left (Text.isPlain_of_isBlank spelled.beforeOperand_blank)]

theorem isWellFormed_negated {membership : Membership}
    (contentWhole : Text.isWellFormed membership.content = true)
    (operandWhole : Text.isWellFormed membership.operand = true) :
    Text.isWellFormed membership.negated = true := by
  have elementWhole : Text.isWellFormed membership.element = true := by
    unfold Membership.element
    split
    · exact contentWhole
    · rfl
  exact Text.isWellFormed_append_of (Text.isWellFormed_enclosed _ elementWhole _) operandWhole

theorem cutsPair_of_closes {rest : Text} (closes : Closes rest) (front : Text) :
    Text.cutsPair front rest = false := by
  cases rest with
  | nil => exact Bool.and_false _
  | cons unit rest =>
      apply Text.cutsPair_cons_of_plain
      have ends : endsOperand unit = true := closes unit rfl
      simp only [endsOperand, Bool.or_eq_true, beq_iff_eq] at ends
      rcases ends with ((rfl | rfl) | rfl) | rfl <;> decide

theorem expression_keepsPairs :
    expression.KeepsPairs fun membership => Text.isWellFormed membership.negated = true := by
  intro before ahead membership rest found
  rcases eq_spelling_of_expression found with ⟨spacing, spelled, rfl⟩
  rcases expression_eq_some_iff.mp found with ⟨behind, _, operand⟩
  refine ⟨membership.spelling spacing, List.cons_ne_nil _ _, rfl, ?_,
    cutsPair_of_closes operand.closes _, ?_⟩
  · exact fun front => Text.cutsPair_cons_of_plain spelled.quote_plain front _
  · intro matchedWhole
    rw [isWellFormed_spelling spelled, Bool.and_eq_true] at matchedWhole
    exact isWellFormed_negated matchedWhole.1 matchedWhole.2

end NegatedMembership

/-! ## The findings of the rules -/

/-- The edit writes a well-formed text between two characters of the source. -/
structure Edit.KeepsPairs (source : Text) (edit : Edit) : Prop where
  replacement : edit.replacement.isWellFormed = true
  start : source.cutsPairAt edit.start.offset = false
  stop : source.cutsPairAt edit.stop.offset = false

/-- The finding shows a well-formed message and points between characters, and
so do its edits. -/
structure Finding.KeepsPairs (source : Text) (finding : Finding) : Prop where
  message : finding.message.isWellFormed = true
  position : ∀ position ∈ finding.position?, source.cutsPairAt position.offset = false
  edits : ∀ edit ∈ finding.edits, edit.KeepsPairs source

/-- A finding about the text as a whole. -/
theorem Rule.keepsPairs_finding_none {rule : Rule} {source message : Text}
    (messageWhole : message.isWellFormed = true) :
    (rule.finding message none []).KeepsPairs source where
  message := messageWhole
  position := by
    intro position absent
    cases absent
  edits := List.forall_mem_nil _

/-- A finding that points at a match. -/
theorem Rule.keepsPairs_finding_at {α : Type} {pattern : Pattern α} {whole : α → Prop}
    (keeps : pattern.KeepsPairs whole) {source : Text} (wellFormed : source.isWellFormed = true)
    {rule : Rule} {message : Text} {occurrence : Occurrence α} {edits : List Edit}
    (listed : occurrence ∈ pattern.occurrences source)
    (messageWhole : message.isWellFormed = true)
    (editsKeep : ∀ edit ∈ edits, edit.KeepsPairs source) :
    (rule.finding message (some (source.positionAt occurrence.start)) edits).KeepsPairs
      source where
  message := messageWhole
  position := by
    rintro position ⟨⟩
    exact (keeps.of_mem_occurrences wellFormed listed).1
  edits := editsKeep

/-- The list that a message shows of the first few matches. -/
theorem isWellFormed_quotedList_of_occurrences {α : Type} {occurrences : List (Occurrence α)}
    {textOf : Occurrence α → Text}
    (whole : ∀ occurrence ∈ occurrences, Text.isWellFormed (textOf occurrence) = true)
    (count : Nat) :
    Text.isWellFormed (Text.quotedList ((occurrences.take count).map textOf)) = true := by
  apply Text.isWellFormed_quotedList
  intro item shown
  rcases List.mem_map.mp shown with ⟨occurrence, taken, rfl⟩
  exact whole occurrence (List.mem_of_mem_take taken)

section Findings

variable {source : Text} {finding : Finding}

theorem BlockBalance.keepsPairs_of_mem_findings (member : finding ∈ findings source) :
    finding.KeepsPairs source := by
  unfold findings at member
  split at member
  · cases member
  · rw [List.mem_singleton.mp member]
    apply Rule.keepsPairs_finding_none
    have headers := Text.isWellFormed_enclosed "Imbalance: "
      (Text.isWellFormed_ofNat (headerCount source)) " 'function' vs "
    have counts := Text.isWellFormed_append_of headers
      (Text.isWellFormed_ofNat (closingCount source))
    exact Text.isWellFormed_append_of counts (Text.isWellFormed_ofString _)

theorem QuoteBalance.keepsPairs_of_mem_findings (member : finding ∈ findings source) :
    finding.KeepsPairs source := by
  unfold findings at member
  split at member
  · cases member
  · rw [List.mem_singleton.mp member]
    exact Rule.keepsPairs_finding_none (Text.isWellFormed_ofString _)

theorem IndentConsistency.keepsPairs_of_mem_findings (member : finding ∈ findings source) :
    finding.KeepsPairs source := by
  unfold findings at member
  split at member
  · cases member
  · rw [List.mem_singleton.mp member]
    apply Rule.keepsPairs_finding_none
    exact Text.isWellFormed_enclosed _ (Tally.isWellFormed_render _) _

variable (wellFormed : source.isWellFormed = true)

include wellFormed

theorem CatchSyntax.keepsPairs_of_mem_findings (member : finding ∈ findings source) :
    finding.KeepsPairs source := by
  rcases List.mem_map.mp member with ⟨occurrence, listed, rfl⟩
  rcases clause_keepsPairs.of_mem_occurrences wellFormed listed with ⟨_, _, matchedWhole, _⟩
  apply Rule.keepsPairs_finding_at clause_keepsPairs wellFormed listed _ (List.forall_mem_nil _)
  exact Text.isWellFormed_enclosed _ ((Text.isWellFormed_trim _).trans matchedWhole) _

theorem VagueFilter.keepsPairs_of_mem_findings (member : finding ∈ findings source) :
    finding.KeepsPairs source := by
  rw [findings_eq_map] at member
  rcases List.mem_map.mp member with ⟨occurrence, listed, rfl⟩
  rcases lambda_keepsPairs.of_mem_occurrences wellFormed listed with ⟨_, _, _, contentWhole⟩
  apply Rule.keepsPairs_finding_at lambda_keepsPairs wellFormed listed _ (List.forall_mem_nil _)
  exact Text.isWellFormed_enclosed _ contentWhole _

theorem MultiCharLiteral.keepsPairs_of_mem_findings (member : finding ∈ findings source) :
    finding.KeepsPairs source := by
  have contentsWhole : ∀ occurrence ∈ literal.occurrences source,
      Text.isWellFormed occurrence.capture = true := by
    intro occurrence listed
    exact (literal_keepsPairs.of_mem_occurrences wellFormed listed).2.2.2
  unfold findings at member
  split at member
  · cases member
  · next first others found =>
    rw [List.mem_singleton.mp member]
    apply Rule.keepsPairs_finding_at literal_keepsPairs wellFormed
      (found ▸ List.mem_cons_self) _ (List.forall_mem_nil _)
    rw [found] at contentsWhole
    exact Text.isWellFormed_enclosed _ (isWellFormed_quotedList_of_occurrences contentsWhole 3) _

theorem RedundantConversion.keepsPairs_of_mem_findings (member : finding ∈ findings source) :
    finding.KeepsPairs source := by
  have callsWhole : ∀ occurrence ∈ call.occurrences source,
      Text.isWellFormed occurrence.matched = true := by
    intro occurrence listed
    exact (call_keepsPairs.of_mem_occurrences wellFormed listed).2.2.1
  unfold findings at member
  split at member
  · cases member
  · next first others found =>
    rw [List.mem_singleton.mp member]
    apply Rule.keepsPairs_finding_at call_keepsPairs wellFormed
      (found ▸ List.mem_cons_self) _ (List.forall_mem_nil _)
    rw [found] at callsWhole
    exact Text.isWellFormed_enclosed _ (isWellFormed_quotedList_of_occurrences callsWhole 3) _

theorem ForeignOperator.keepsPairs_of_mem_findings (member : finding ∈ findings source) :
    finding.KeepsPairs source := by
  unfold findings at member
  split at member
  · cases member
  · next first others found =>
    rw [List.mem_singleton.mp member]
    apply Rule.keepsPairs_finding_at wholeWord_keepsPairs wellFormed
      (found ▸ List.mem_cons_self) _ (List.forall_mem_nil _)
    refine Text.isWellFormed_enclosed _ (Text.isWellFormed_join (Text.isWellFormed_ofString _) ?_) _
    intro shown isShown
    rcases List.mem_map.mp isShown with ⟨text, isListed, rfl⟩
    rcases exists_spelling_of_mem_wordsIn found (List.mem_of_mem_take isListed) with ⟨word, rfl⟩
    cases word <;> decide

theorem NegatedMembership.keepsPairs_of_mem_findings (member : finding ∈ findings source) :
    finding.KeepsPairs source := by
  have editsKeep : ∀ proposed ∈ (expression.occurrences source).map (edit source),
      proposed.KeepsPairs source := by
    intro proposed isEdit
    rcases List.mem_map.mp isEdit with ⟨occurrence, listed, rfl⟩
    rcases expression_keepsPairs.of_mem_occurrences wellFormed listed with
      ⟨startUncut, stopUncut, _, negatedWhole⟩
    exact ⟨negatedWhole, startUncut, stopUncut⟩
  rw [findings_eq] at member
  split at member
  · split at member
    · cases member
    · next first others found =>
      rw [List.mem_singleton.mp member]
      rw [found] at editsKeep
      exact Rule.keepsPairs_finding_at expression_keepsPairs wellFormed
        (found ▸ List.mem_cons_self) (Text.isWellFormed_ofString _) editsKeep
  · cases member

theorem Rule.keepsPairs_of_mem_findings {rule : Rule} (member : finding ∈ rule.findings source) :
    finding.KeepsPairs source := by
  cases rule with
  | blockBalance => exact BlockBalance.keepsPairs_of_mem_findings member
  | catchSyntax => exact CatchSyntax.keepsPairs_of_mem_findings wellFormed member
  | quoteBalance => exact QuoteBalance.keepsPairs_of_mem_findings member
  | multiCharLiteral => exact MultiCharLiteral.keepsPairs_of_mem_findings wellFormed member
  | indentConsistency => exact IndentConsistency.keepsPairs_of_mem_findings member
  | redundantConversion => exact RedundantConversion.keepsPairs_of_mem_findings wellFormed member
  | vagueFilter => exact VagueFilter.keepsPairs_of_mem_findings wellFormed member
  | foreignOperator => exact ForeignOperator.keepsPairs_of_mem_findings wellFormed member
  | negatedMembership => exact NegatedMembership.keepsPairs_of_mem_findings wellFormed member

/-- Severities have no part in this. -/
theorem keepsPairs_of_mem_inspect {config : Config} (member : finding ∈ inspect source config) :
    finding.KeepsPairs source := by
  rcases List.mem_flatMap.mp member with ⟨rule, _, own⟩
  unfold Rule.findingsUnder at own
  split at own
  · rcases List.mem_map.mp own with ⟨original, reported, rfl⟩
    rcases Rule.keepsPairs_of_mem_findings wellFormed reported with
      ⟨messageWhole, positionUncut, editsKeep⟩
    exact ⟨messageWhole, positionUncut, editsKeep⟩
  · cases own

end Findings

/-! ## The script of a report -/

theorem isWellFormed_script {source : Text} (wellFormed : source.isWellFormed = true)
    (config : Config) : (lint source config).script.isWellFormed = true := by
  cases outcome : (lint source config).isRepaired with
  | true =>
      rw [script_lint_of_repaired outcome,
        NegatedMembership.repairAll_of_findings (isRepaired_lint_iff.mp outcome).2]
      exact NegatedMembership.expression_keepsPairs.isWellFormed_substituteFrom
        (fun _ whole => whole) [] source [] wellFormed
  | false =>
      rw [script_lint_of_not_repaired outcome]
      exact wellFormed

theorem isWellFormed_scriptAfter {source : Text} (wellFormed : source.isWellFormed = true)
    (config : Config) (rounds : Nat) :
    (scriptAfter config source rounds).isWellFormed = true := by
  induction rounds with
  | zero => exact wellFormed
  | succ rounds ih => exact isWellFormed_script ih config

/--
No surrogate pair of a well-formed script is ever cut.  The report gives back a
well-formed script, and so does every further round of linting.  All findings
have well-formed messages and replacements, and the offsets of their positions
and edits lie between the characters of the script.
-/
theorem lint_keeps_pairs (source : Text) (config : Config)
    (wellFormed : source.isWellFormed = true) :
    (lint source config).script.isWellFormed = true ∧
    (∀ finding ∈ inspect source config,
      finding.message.isWellFormed = true ∧
      (∀ position, finding.position? = some position →
        source.cutsPairAt position.offset = false) ∧
      ∀ edit ∈ finding.edits,
        edit.replacement.isWellFormed = true ∧
        source.cutsPairAt edit.start.offset = false ∧
        source.cutsPairAt edit.stop.offset = false) ∧
    (∀ finding ∈ (lint source config).listed, finding ∈ inspect source config) ∧
    ∀ rounds, (scriptAfter config source rounds).isWellFormed = true := by
  refine ⟨isWellFormed_script wellFormed config, ?_, ?_, isWellFormed_scriptAfter wellFormed config⟩
  · intro finding member
    rcases keepsPairs_of_mem_inspect wellFormed member with
      ⟨messageWhole, positionUncut, editsKeep⟩
    refine ⟨messageWhole, positionUncut, ?_⟩
    intro edit proposed
    rcases editsKeep edit proposed with ⟨replacementWhole, startUncut, stopUncut⟩
    exact ⟨replacementWhole, startUncut, stopUncut⟩
  · intro finding listed
    rw [listed_lint] at listed
    exact List.mem_of_mem_take listed

/-- Pairs stand at every edge of this test: in front of it, between its quotes
and in its operand. -/
theorem lint_keeps_pairs_of_emoji :
    let source : Text := "😀\"😀\" not in 😀"
    source.isWellFormed = true ∧
      source.cutsPairAt 1 = true ∧
      (lint source Config.empty).script = "😀!😀 in 😀" ∧
      (∃ finding ∈ inspect source Config.empty, finding.edits ≠ []) ∧
      ∀ finding ∈ inspect source Config.empty, ∀ edit ∈ finding.edits,
        edit.replacement.isWellFormed = true ∧
        source.cutsPairAt edit.start.offset = false ∧
        source.cutsPairAt edit.stop.offset = false := by
  intro source
  have wellFormed : source.isWellFormed = true := by decide
  refine ⟨wellFormed, by decide, by decide +kernel, by decide +kernel, ?_⟩
  intro finding member
  exact ((lint_keeps_pairs source Config.empty wellFormed).2.1 finding member).2.2

end JuliaLint

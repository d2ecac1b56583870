import JuliaLint.Proofs.Assembly
import JuliaLint.Proofs.LineEndings
import JuliaLint.Proofs.QuotedLists
import JuliaLint.Proofs.ReportedPlaces

namespace JuliaLint

/-!
# The lines of a report

A report is meant to be read line by line: a heading, a line for each listed
finding, an empty line, and the script under a line of its own.  It has this
form exactly when no listed message holds a line feed, since a line feed in a
message starts a new line.

Most messages are made of fixed words, numbers and quoted lists, and none of
these breaks a line.  Two rules put a piece of the script into their message as
it stands.  A filter's quoted text may hold a line feed.  A catch clause ends at
its first line feed behind the blank space that follows `catch`, but that blank
space may itself hold line feeds, and they stay in the message if the clause
goes on behind it.
-/

/-! ## Lines and numbers -/

namespace Text

theorem lines_append_lineFeed (front back : Text) :
    lines (front ++ CodeUnit.lineFeed :: back) = lines front ++ lines back :=
  splitWhere_append_of_separates rfl front back

theorem lines_of_not_mem {text : Text} (absent : CodeUnit.lineFeed ∉ text) :
    lines text = [text] := by
  have inner : ∀ unit ∈ text, (unit == CodeUnit.lineFeed) = false := by
    intro unit member
    exact beq_false_of_ne fun same => absent (same ▸ member)
  have nothing : splitWhere (fun unit => unit == CodeUnit.lineFeed) [] = [[]] := rfl
  have whole := splitWhere_append inner nothing
  rwa [List.append_nil] at whole

/-- Texts that are joined by line feeds have the lines of all of them. -/
theorem lines_join {items : List Text} (nonempty : items ≠ []) :
    lines (join "\n" items) = items.flatMap lines := by
  induction items with
  | nil => exact absurd rfl nonempty
  | cons first items ih =>
      cases items with
      | nil => simp [join]
      | cons second items =>
          rw [join_cons, if_neg (List.cons_ne_nil _ _)]
          change lines (first ++ CodeUnit.lineFeed :: join "\n" (second :: items)) = _
          rw [lines_append_lineFeed, ih (List.cons_ne_nil _ _), ← List.flatMap_cons]

/-- Texts are their own lines exactly when none of them holds a line feed. -/
theorem flatMap_lines_eq_iff {items : List Text} :
    items.flatMap lines = items ↔ ∀ item ∈ items, CodeUnit.lineFeed ∉ item := by
  constructor
  · intro same item listed inItem
    rw [← same] at listed
    rcases List.mem_flatMap.mp listed with ⟨text, _, isLine⟩
    exact absurd (not_separates_of_mem_splitWhere isLine _ inItem) (by decide)
  · intro absent
    calc
      items.flatMap lines = items.flatMap fun item => [item] :=
        List.flatMap_congr fun item listed => lines_of_not_mem (absent item listed)
      _ = items := List.flatMap_singleton' items

/-- Each digit of a number is written as one unit. -/
theorem ofCodePoint_of_mem_toDigits {number : Nat} {digit : Char}
    (member : digit ∈ Nat.toDigits 10 number) :
    ∃ unit : CodeUnit, ofCodePoint digit.toNat = [unit] ∧ unit.toNat = digit.toNat ∧
      unit.isDigit = true := by
  have decimal : digit.isDigit = true :=
    Nat.isDigit_of_mem_toDigits (by decide) (by decide) member
  have bounds : 48 ≤ digit.toNat ∧ digit.toNat ≤ 57 := by
    simpa [Char.isDigit, UInt32.le_iff_toNat_le] using decimal
  have sameNat : (UInt16.ofNat digit.toNat).toNat = digit.toNat := by
    rw [UInt16.toNat_ofNat', Nat.mod_eq_of_lt (by omega)]
  refine ⟨UInt16.ofNat digit.toNat, by rw [ofCodePoint, if_pos (by omega)], sameNat, ?_⟩
  simp only [CodeUnit.isDigit, sameNat, Bool.and_eq_true, decide_eq_true_eq]
  exact bounds

theorem isDigit_of_mem_ofNat {number : Nat} {unit : CodeUnit} (member : unit ∈ ofNat number) :
    unit.isDigit = true := by
  rcases List.mem_flatMap.mp member with ⟨digit, inNumber, inDigit⟩
  rcases ofCodePoint_of_mem_toDigits inNumber with ⟨digitUnit, units, _, isDigit⟩
  rw [units, List.mem_singleton] at inDigit
  rw [inDigit, isDigit]

theorem lineFeed_not_mem_ofNat (number : Nat) : CodeUnit.lineFeed ∉ ofNat number := by
  intro member
  exact absurd (isDigit_of_mem_ofNat member) (by decide)

theorem lineFeed_mem_enclosed_iff {front back : Text} (inFront : CodeUnit.lineFeed ∉ front)
    (inBack : CodeUnit.lineFeed ∉ back) (text : Text) :
    CodeUnit.lineFeed ∈ front ++ text ++ back ↔ CodeUnit.lineFeed ∈ text := by
  rw [List.mem_append, List.mem_append, or_iff_left inBack, or_iff_right inFront]

theorem lineFeed_not_mem_enclosed {front text back : Text} (inFront : CodeUnit.lineFeed ∉ front)
    (inBack : CodeUnit.lineFeed ∉ back) (inText : CodeUnit.lineFeed ∉ text) :
    CodeUnit.lineFeed ∉ front ++ text ++ back :=
  mt (lineFeed_mem_enclosed_iff inFront inBack text).mp inText

/-- Trimming stops at the first unit that is not blank, seen from the end. -/
theorem trim_append_of_not_blank {front body : Text} (frontFilled : isBlank front = false)
    (opens : skipBlanks front = front) (bodyFilled : isBlank body = false) :
    trim (front ++ body) = front ++ (skipBlanks body.reverse).reverse := by
  have backwards : isBlank body.reverse = false := by
    rw [isBlank, List.all_reverse]
    exact bodyFilled
  rw [trim, skipBlanks_append_of_not_blank frontFilled, opens, List.reverse_append,
    skipBlanks_append_of_not_blank backwards, List.reverse_append, List.reverse_reverse]

/-- Fewer units than a text has are blank at its start exactly when it is not blank. -/
theorem length_leadingBlanks_append_lt_iff (body rest : Text) :
    (leadingBlanks (body ++ rest)).length < body.length ↔ isBlank body = false := by
  cases filled : isBlank body with
  | true =>
      rw [leadingBlanks_append_of_blank filled, List.length_append]
      exact iff_of_false (by omega) (by decide)
  | false =>
      have whole := congrArg List.length (leadingBlanks_append_skipBlanks body)
      have remains : skipBlanks body ≠ [] := by
        intro nothing
        rw [skipBlanks_eq_nil_iff.mp nothing] at filled
        cases filled
      have positive := List.length_pos_iff.mpr remains
      rw [List.length_append] at whole
      rw [leadingBlanks_append_of_not_blank filled]
      exact iff_of_true (by omega) rfl

end Text

/-! ## Catch clauses -/

namespace CatchSyntax

/--
The clause at the place runs on behind a line feed: the blank space behind its
word holds one, and the clause reaches beyond that blank space.
-/
def RunsOn (source : Text) (place : Nat) : Prop :=
  CodeUnit.lineFeed ∈ Text.leadingBlanks (source.drop (place + 5)) ∧
    ∃ stop, Reaches source place stop ∧ place + 5 + gapLength source place < stop

/-- Behind the blank space that it takes, a clause holds no line feed. -/
theorem parts_of_clause {before ahead rest : Text}
    (found : clause before ahead = some ((), rest)) :
    ∃ gap body : Text, Text.isBlank gap = true ∧ CodeUnit.lineFeed ∉ body ∧
      ahead = "catch" ++ (gap ++ (body ++ rest)) := by
  rcases clause_eq_some_iff.mp found with ⟨blank, behind, isBlank, rfl, skipped⟩
  rcases Text.eq_append_of_skipMostBlanks? skipped with ⟨blanks, clause, blanksBlank, rfl, stopped⟩
  unfold clauseEnd? at stopped
  split at stopped
  · cases stopped
  · rcases Text.isLeast_of_seek? stopped with ⟨count, ⟨_, least⟩, rfl⟩
    refine ⟨blank :: blanks, clause.take count, ?_, ?_, ?_⟩
    · exact Bool.and_eq_true_iff.mpr ⟨isBlank, blanksBlank⟩
    · intro member
      rcases List.mem_iff_getElem.mp member with ⟨index, inside, isFeed⟩
      rw [List.length_take] at inside
      rw [List.getElem_take] at isFeed
      have stops : stopsClause (clause.drop index) = true := by
        rw [List.drop_eq_getElem_cons (by omega), isFeed]
        rfl
      have atMost : count ≤ index := least stops
      omega
    · rw [List.take_append_drop, List.cons_append]

/-- A line feed stays in the trimmed clause if something other than blank space follows it. -/
theorem lineFeed_mem_trim_iff {gap body : Text} (gapBlank : Text.isBlank gap = true)
    (absent : CodeUnit.lineFeed ∉ body) :
    CodeUnit.lineFeed ∈ Text.trim ("catch" ++ (gap ++ body)) ↔
      CodeUnit.lineFeed ∈ gap ∧ Text.isBlank body = false := by
  cases filled : Text.isBlank body with
  | true =>
      have allBlank : Text.isBlank (gap ++ body) = true := by
        rw [Text.isBlank, List.all_append]
        exact Bool.and_eq_true_iff.mpr ⟨gapBlank, filled⟩
      rw [Text.trim_append_of_blank_right allBlank]
      exact iff_of_false (by decide) fun both => absurd both.2 (by decide)
  | false =>
      have wordFilled : Text.isBlank ("catch" ++ gap) = false := rfl
      have opens : Text.skipBlanks ("catch" ++ gap) = "catch" ++ gap := rfl
      have inWord : CodeUnit.lineFeed ∉ Text.ofString "catch" := by decide
      have inRest : CodeUnit.lineFeed ∉ (Text.skipBlanks body.reverse).reverse := by
        intro member
        have inBody := (List.dropWhile_sublist _).mem (List.mem_reverse.mp member)
        exact absent (List.mem_reverse.mp inBody)
      rw [← List.append_assoc, Text.trim_append_of_not_blank wordFilled opens filled,
        Text.lineFeed_mem_enclosed_iff inWord inRest, and_iff_left rfl]

theorem lineFeed_mem_trim_matched_iff {source : Text} {occurrence : Occurrence Unit}
    (listed : occurrence ∈ clause.occurrences source) :
    CodeUnit.lineFeed ∈ Text.trim occurrence.matched ↔ RunsOn source occurrence.start := by
  rcases Pattern.eq_append_of_mem_scanFrom clause_advances listed with
    ⟨lead, rest, sourceSplit, start, read⟩
  rcases parts_of_clause read with ⟨gap, body, gapBlank, absent, matchedSplit⟩
  have matched : occurrence.matched = "catch" ++ (gap ++ body) := by
    apply List.append_cancel_right
    rw [matchedSplit, List.append_assoc, List.append_assoc]
  have stop : occurrence.stop = occurrence.start + 5 + gap.length + body.length := by
    have wordLength : (Text.ofString "catch").length = 5 := rfl
    rw [Occurrence.stop, matched, List.length_append, List.length_append, wordLength]
    omega
  have reaches : Reaches source occurrence.start occurrence.stop := by
    rcases Pattern.read_of_mem_occurrences clause_advances listed with ⟨within, readAt⟩
    exact reaches_of_clause within readAt
  have behindWord : source.drop (occurrence.start + 5) = gap ++ (body ++ rest) := by
    have starts : occurrence.start = lead.length := by
      simpa using start
    rw [sourceSplit, starts, List.drop_length_add_append, matchedSplit]
    rfl
  have space : Text.leadingBlanks (source.drop (occurrence.start + 5)) =
      gap ++ Text.leadingBlanks (body ++ rest) := by
    rw [behindWord, Text.leadingBlanks_append_of_blank gapBlank]
  have beyond : (∃ stop, Reaches source occurrence.start stop ∧
      occurrence.start + 5 + gapLength source occurrence.start < stop) ↔
        Text.isBlank body = false := by
    rw [← Text.length_leadingBlanks_append_lt_iff body rest, gapLength, space,
      List.length_append]
    constructor
    · rintro ⟨other, otherReaches, further⟩
      rw [otherReaches.unique reaches] at further
      omega
    · intro fewer
      exact ⟨occurrence.stop, reaches, by omega⟩
  rw [matched, lineFeed_mem_trim_iff gapBlank absent, RunsOn, beyond, space]
  refine and_congr_left fun filled => ?_
  rw [Text.leadingBlanks_append_of_not_blank filled, List.mem_append]
  have notLeading : CodeUnit.lineFeed ∉ Text.leadingBlanks body :=
    fun member => absent ((List.takeWhile_sublist _).mem member)
  rw [or_iff_left notLeading]

end CatchSyntax

/-! ## Filters -/

namespace VagueFilter

/-- The quoted text of the filter at the place holds a line feed. -/
def RunsOn (source : Text) (place : Nat) : Prop :=
  ∃ content rest : Text, CodeUnit.doubleQuote ∉ content ∧ CodeUnit.lineFeed ∈ content ∧
    source.drop place = "filter(tf -> \"" ++ (content ++ CodeUnit.doubleQuote :: rest)

theorem lineFeed_mem_capture_iff {source : Text} {occurrence : Occurrence Text}
    (listed : occurrence ∈ lambda.occurrences source) :
    CodeUnit.lineFeed ∈ occurrence.capture ↔ RunsOn source occurrence.start := by
  have read := (Pattern.read_of_mem_occurrences lambda_advances listed).2
  have absent := doubleQuote_not_mem_of_lambda read
  rcases eq_append_of_lambda read with ⟨body, split⟩
  constructor
  · intro inCapture
    exact ⟨occurrence.capture, _, absent, inCapture, split⟩
  · rintro ⟨content, rest, otherAbsent, inContent, otherSplit⟩
    have behind := List.append_cancel_left (split.symm.trans otherSplit)
    have cut := Text.upTo?_eq_some_iff.mpr ⟨absent, behind.symm⟩
    rw [Text.upTo?_eq_some_iff.mpr ⟨otherAbsent, rfl⟩] at cut
    rw [← (Prod.mk.inj (Option.some.inj cut)).1]
    exact inContent

end VagueFilter

/-! ## The messages of the rules -/

/-- What the rule quotes from the place runs over several lines. -/
def Rule.RunsOn : Rule → (source : Text) → (place : Nat) → Prop
  | catchSyntax => CatchSyntax.RunsOn
  | vagueFilter => VagueFilter.RunsOn
  | _ => fun _ _ => False

theorem Tally.lineFeed_not_mem_render (tally : Tally Nat) :
    CodeUnit.lineFeed ∉ tally.render Text.ofNat := by
  unfold render
  rw [Text.lineFeed_mem_enclosed_iff (by decide) (by decide)]
  intro member
  rcases Text.mem_join member with inSeparator | ⟨shown, listed, inShown⟩
  · exact absurd inSeparator (by decide)
  · rcases List.mem_map.mp listed with ⟨⟨value, times⟩, _, rfl⟩
    rw [List.mem_append, List.mem_append] at inShown
    rcases inShown with (inValue | inColon) | inTimes
    · exact Text.lineFeed_not_mem_ofNat value inValue
    · exact absurd inColon (by decide)
    · exact Text.lineFeed_not_mem_ofNat times inTimes

theorem ForeignOperator.lineFeed_not_mem_advices {texts : List Text}
    (spelled : ∀ text ∈ texts, ∃ word : Word, text = word.spelling) :
    CodeUnit.lineFeed ∉ Text.join ", " (texts.map advice) := by
  intro member
  rcases Text.mem_join member with inSeparator | ⟨shown, listed, inShown⟩
  · exact absurd inSeparator (by decide)
  · rcases List.mem_map.mp listed with ⟨text, isListed, rfl⟩
    rcases spelled text isListed with ⟨word, rfl⟩
    revert inShown
    cases word <;> decide

theorem lineFeed_not_mem_quotedList (items : List Text) :
    CodeUnit.lineFeed ∉ Text.quotedList items :=
  Text.not_mem_quotedList_of_not_isVisible (by decide) items

/-- Apart from what two rules quote as it stands, no message holds a line feed. -/
theorem Rule.lineFeed_not_mem_message {rule : Rule} {source : Text} {finding : Finding}
    (notClause : rule ≠ .catchSyntax) (notFilter : rule ≠ .vagueFilter)
    (member : finding ∈ rule.findings source) : CodeUnit.lineFeed ∉ finding.message := by
  cases rule with
  | catchSyntax => exact absurd rfl notClause
  | vagueFilter => exact absurd rfl notFilter
  | blockBalance =>
      simp only [findings, BlockBalance.findings] at member
      split at member
      · cases member
      · rw [List.mem_singleton.mp member]
        exact Text.lineFeed_not_mem_enclosed
          (Text.lineFeed_not_mem_enclosed (by decide) (by decide) (Text.lineFeed_not_mem_ofNat _))
          (by decide) (Text.lineFeed_not_mem_ofNat _)
  | quoteBalance =>
      simp only [findings, QuoteBalance.findings] at member
      split at member
      · cases member
      · rw [List.mem_singleton.mp member]
        decide
  | multiCharLiteral =>
      simp only [findings, MultiCharLiteral.findings] at member
      split at member
      · cases member
      · rw [List.mem_singleton.mp member]
        exact Text.lineFeed_not_mem_enclosed (by decide) (by decide)
          (lineFeed_not_mem_quotedList _)
  | indentConsistency =>
      simp only [findings, IndentConsistency.findings] at member
      split at member
      · cases member
      · rw [List.mem_singleton.mp member]
        exact Text.lineFeed_not_mem_enclosed (by decide) (by decide)
          (Tally.lineFeed_not_mem_render _)
  | redundantConversion =>
      simp only [findings, RedundantConversion.findings] at member
      split at member
      · cases member
      · rw [List.mem_singleton.mp member]
        exact Text.lineFeed_not_mem_enclosed (by decide) (by decide)
          (lineFeed_not_mem_quotedList _)
  | foreignOperator =>
      simp only [findings, ForeignOperator.findings] at member
      split at member
      · cases member
      · next first others found =>
        rw [List.mem_singleton.mp member]
        refine Text.lineFeed_not_mem_enclosed (by decide) (by decide)
          (ForeignOperator.lineFeed_not_mem_advices fun text isListed => ?_)
        exact ForeignOperator.exists_spelling_of_mem_wordsIn found (List.mem_of_mem_take isListed)
  | negatedMembership =>
      simp only [findings, NegatedMembership.findings_eq] at member
      split at member
      · split at member
        · cases member
        · rw [List.mem_singleton.mp member]
          exact (by decide : CodeUnit.lineFeed ∉
            Text.ofString "Auto-fixed 'not in' to '!(... in ...)' – see fixed code below")
      · cases member

/-- A rule that quotes from the place of its finding and adds no line feed of its own. -/
theorem Rule.lineFeed_mem_quoting_iff {rule : Rule} {source front quoted back : Text} {start : Nat}
    (inFront : CodeUnit.lineFeed ∉ front) (inBack : CodeUnit.lineFeed ∉ back)
    (offset : (source.positionAt start).offset = start)
    (runsOn_iff : CodeUnit.lineFeed ∈ quoted ↔ rule.RunsOn source start) :
    CodeUnit.lineFeed ∈ front ++ quoted ++ back ↔
      ∃ position ∈ some (source.positionAt start), rule.RunsOn source position.offset := by
  rw [Text.lineFeed_mem_enclosed_iff inFront inBack, runsOn_iff]
  constructor
  · intro runsOn
    exact ⟨source.positionAt start, rfl, offset.symm ▸ runsOn⟩
  · rintro ⟨position, isPosition, runsOn⟩
    cases isPosition
    rwa [offset] at runsOn

/-- A message holds a line feed exactly when what it quotes runs over several lines. -/
theorem Rule.lineFeed_mem_message_iff {rule : Rule} {source : Text} {finding : Finding}
    (member : finding ∈ rule.findings source) :
    CodeUnit.lineFeed ∈ finding.message ↔
      ∃ position ∈ finding.position?, rule.RunsOn source position.offset := by
  by_cases isClause : rule = .catchSyntax
  · subst isClause
    rcases List.mem_map.mp member with ⟨occurrence, listed, rfl⟩
    exact lineFeed_mem_quoting_iff (by decide) (by decide)
      (Pattern.offset_of_mem_occurrences CatchSyntax.clause_advances listed)
      (CatchSyntax.lineFeed_mem_trim_matched_iff listed)
  by_cases isFilter : rule = .vagueFilter
  · subst isFilter
    rw [findings, VagueFilter.findings_eq_map] at member
    rcases List.mem_map.mp member with ⟨occurrence, listed, rfl⟩
    exact lineFeed_mem_quoting_iff (by decide) (by decide)
      (Pattern.offset_of_mem_occurrences VagueFilter.lambda_advances listed)
      (VagueFilter.lineFeed_mem_capture_iff listed)
  · refine iff_of_false (lineFeed_not_mem_message isClause isFilter member) ?_
    rintro ⟨position, _, runsOn⟩
    cases rule with
    | catchSyntax => exact isClause rfl
    | vagueFilter => exact isFilter rfl
    | _ => exact runsOn

/-- The same of the findings that a report lists. -/
theorem lineFeed_mem_message_of_mem_listed_iff {source : Text} {config : Config}
    {finding : Finding} (listed : finding ∈ (lint source config).listed) :
    CodeUnit.lineFeed ∈ finding.message ↔
      ∃ rule : Rule, finding.code = rule.code ∧
        ∃ position ∈ finding.position?, rule.RunsOn source position.offset := by
  rw [listed_lint] at listed
  rcases List.mem_flatMap.mp (List.mem_of_mem_take listed) with ⟨rule, _, own⟩
  have ownCode := Rule.code_of_mem_findingsUnder own
  have ownMessage : CodeUnit.lineFeed ∈ finding.message ↔
      ∃ position ∈ finding.position?, rule.RunsOn source position.offset := by
    unfold Rule.findingsUnder at own
    split at own
    · rcases List.mem_map.mp own with ⟨original, reported, rfl⟩
      have unlevelled := Rule.lineFeed_mem_message_iff reported
      exact unlevelled
    · cases own
  rw [ownMessage]
  constructor
  · intro runsOn
    exact ⟨rule, ownCode, runsOn⟩
  · rintro ⟨other, otherCode, runsOn⟩
    rwa [Rule.code_injective (otherCode.symm.trans ownCode)] at runsOn

/-! ## The report -/

/-- The line that a report gives to a finding. -/
def Finding.item (finding : Finding) : Text :=
  Text.ofString "- " ++ finding.message

/-- The lines of a report: a heading, the items, an empty line and the script under its title. -/
def Report.layout (total : Nat) (items : List Text) (script : Text) : List Text :=
  ("❌ Fixes (" ++ Text.ofNat total ++ "):") ::
    (items ++ [] :: Text.ofString "Fixed code:" :: Text.lines script)

theorem Report.lines_render {total : Nat} {listed : List Finding} (nonempty : listed ≠ [])
    (repaired : Bool) (script : Text) :
    Text.lines (Report.dirty total listed repaired script).render =
      Report.layout total ((listed.map Finding.item).flatMap Text.lines) script := by
  have heading : CodeUnit.lineFeed ∉ "❌ Fixes (" ++ Text.ofNat total ++ "):" :=
    Text.lineFeed_not_mem_enclosed (by decide) (by decide) (Text.lineFeed_not_mem_ofNat total)
  have title : CodeUnit.lineFeed ∉ Text.ofString "Fixed code:" := by decide
  have items : listed.map Finding.item ≠ [] := fun none => nonempty (List.map_eq_nil_iff.mp none)
  have written : (Report.dirty total listed repaired script).render =
      ("❌ Fixes (" ++ Text.ofNat total ++ "):") ++ CodeUnit.lineFeed ::
        (Text.join "\n" (listed.map Finding.item) ++ CodeUnit.lineFeed ::
          ([] ++ CodeUnit.lineFeed :: (Text.ofString "Fixed code:" ++ CodeUnit.lineFeed ::
            script))) := by
    simp only [Report.render, List.append_assoc]
    rfl
  rw [written, Text.lines_append_lineFeed, Text.lines_append_lineFeed, Text.lines_append_lineFeed,
    Text.lines_append_lineFeed, Text.lines_of_not_mem heading, Text.lines_of_not_mem title,
    Text.lines_join items]
  rfl

theorem Report.layout_inj {total : Nat} {items others : List Text} {script : Text} :
    Report.layout total items script = Report.layout total others script ↔ items = others := by
  unfold layout
  rw [List.cons_inj_right, List.append_left_inj]

/--
When a report can be read line by line.  The lines of a report that lists
findings are the heading, the lines of the items, an empty line, and the script
under its title.  Each item is one line exactly when no listed message holds a
line feed; and a message holds one exactly when it quotes a catch clause or the
quoted text of a filter that runs over several lines.
-/
theorem report_gives_findings_lines_iff (source : Text) (config : Config)
    (found : inspect source config ≠ []) :
    Text.lines (lint source config).render =
      Report.layout (inspect source config).length
        (((lint source config).listed.map Finding.item).flatMap Text.lines)
        (lint source config).script ∧
    (Text.lines (lint source config).render =
        Report.layout (inspect source config).length
          ((lint source config).listed.map Finding.item) (lint source config).script ↔
      ∀ finding ∈ (lint source config).listed, CodeUnit.lineFeed ∉ finding.message) ∧
    ∀ finding ∈ (lint source config).listed,
      (CodeUnit.lineFeed ∈ finding.message ↔
        ∃ rule : Rule, finding.code = rule.code ∧
          ∃ position ∈ finding.position?, rule.RunsOn source position.offset) := by
  have report := lint_eq_dirty found
  have listed : (lint source config).listed ≠ [] := by
    rw [listed_lint]
    exact fun none => found (List.take_eq_nil_iff.mp none |>.resolve_left (by decide))
  have lines : Text.lines (lint source config).render =
      Report.layout (inspect source config).length
        (((lint source config).listed.map Finding.item).flatMap Text.lines)
        (lint source config).script := by
    rw [listed_lint] at listed ⊢
    conv => lhs; rw [report]
    exact Report.lines_render listed _ _
  refine ⟨lines, ?_, fun finding => lineFeed_mem_message_of_mem_listed_iff⟩
  rw [lines, Report.layout_inj, Text.flatMap_lines_eq_iff, List.forall_mem_map]
  have inItem : ∀ finding : Finding,
      CodeUnit.lineFeed ∉ finding.item ↔ CodeUnit.lineFeed ∉ finding.message := by
    intro finding
    rw [Finding.item, List.mem_append, or_iff_right (by decide)]
  simp only [inItem]

/-- A clause on one line, and a literal whose line feed is escaped. -/
theorem report_of_escaped_lineFeed :
    let source : Text := "'a\nb'\ncatch e\n"
    (lint source Config.empty).listed.map Finding.message =
        [Text.ofString "Invalid catch: 'catch e' – use 'catch _;' or 'catch err;'",
          Text.ofString "Multi-char literals: ['a\\nb']... – use string"] ∧
      Text.lines (lint source Config.empty).render =
        Report.layout (inspect source Config.empty).length
          ((lint source Config.empty).listed.map Finding.item)
          (lint source Config.empty).script := by
  intro source
  have messages : (lint source Config.empty).listed.map Finding.message =
      [Text.ofString "Invalid catch: 'catch e' – use 'catch _;' or 'catch err;'",
        Text.ofString "Multi-char literals: ['a\\nb']... – use string"] := by
    decide +kernel
  have found : inspect source Config.empty ≠ [] := by
    intro none
    rw [listed_lint, none] at messages
    cases messages
  have absent : ∀ finding ∈ (lint source Config.empty).listed,
      CodeUnit.lineFeed ∉ finding.message := by
    intro finding listed
    have shown : finding.message ∈ (lint source Config.empty).listed.map Finding.message :=
      List.mem_map_of_mem listed
    rw [messages, List.mem_pair] at shown
    rcases shown with clause | literal
    · rw [clause]
      decide
    · rw [literal]
      decide
  exact ⟨messages, (report_gives_findings_lines_iff source Config.empty found).2.1.mpr absent⟩

/-- A clause and a filter that run over two lines break a line of the report. -/
theorem report_breaks_quoted_lines :
    let clause : Text := "catch\nfoo\n"
    let filter : Text := "filter(tf -> \"a\nb\" not in tf)"
    (lint clause Config.empty).listed.map Finding.message =
        [Text.ofString "Invalid catch: 'catch\nfoo' – use 'catch _;' or 'catch err;'"] ∧
      Text.lines (lint clause Config.empty).render =
        Report.layout 1
          ["- Invalid catch: 'catch", "foo' – use 'catch _;' or 'catch err;'"] clause ∧
      (∃ finding ∈ (lint filter Config.empty).listed,
        finding.message = "Vague filter 'not in' for 'a\nb' – check quotes") ∧
      ¬∀ (source : Text) (config : Config),
        ∀ finding ∈ (lint source config).listed, CodeUnit.lineFeed ∉ finding.message := by
  intro clause filter
  have filterBroken : ∃ finding ∈ (lint filter Config.empty).listed,
      finding.message = "Vague filter 'not in' for 'a\nb' – check quotes" := by
    decide +kernel
  refine ⟨by decide +kernel, by decide +kernel, filterBroken, ?_⟩
  intro absent
  rcases filterBroken with ⟨finding, listed, message⟩
  apply absent filter Config.empty finding listed
  rw [message]
  decide

end JuliaLint

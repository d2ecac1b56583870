import JuliaLint.Proofs.MembershipGrammar
import JuliaLint.Rule.Battery

namespace JuliaLint

/-!
# What the matches of the rules look like

A match is made of the words that its pattern asks for and of the stretches
between them.  Each statement here spells out the units that a match takes, up
to the rest of the text, as the membership grammar does for quoted membership
tests.

The shapes settle two checks that rules make of their own matches.  The text of
a filter never holds a quoted text, so every filter is reported, and the matched
words are spelled as foreign words are, so each of them has its replacement.
-/

/-- Seeking passes over units until the rest is accepted. -/
theorem Text.eq_append_of_seek? {stops : Text → Bool} {text rest : Text}
    (found : seek? stops text = some rest) :
    stops rest = true ∧ ∃ passed, text = passed ++ rest := by
  induction text with
  | nil =>
      rw [seek?] at found
      split at found
      · next accepted =>
        cases found
        exact ⟨accepted, [], rfl⟩
      · cases found
  | cons unit text ih =>
      rw [seek?] at found
      split at found
      · next accepted =>
        cases found
        exact ⟨accepted, [], rfl⟩
      · rcases ih found with ⟨accepted, passed, rfl⟩
        exact ⟨accepted, unit :: passed, rfl⟩

/-- The clause runs to a line feed or to the word `end`. -/
theorem CatchSyntax.eq_append_of_clause {before ahead rest : Text}
    (found : clause before ahead = some ((), rest)) :
    stopsClause rest = true ∧ ∃ body, ahead = "catch" ++ (body ++ rest) := by
  simp only [clause, Option.bind_eq_bind, Option.bind_eq_some_iff] at found
  rcases found with ⟨behind, wordRead, found⟩
  have wordSplit := Text.after?_eq_some_iff.mp wordRead
  split at found
  · cases found
  · next unit behind =>
    split at found
    · rcases Option.bind_eq_some_iff.mp found with ⟨stop, skipped, same⟩
      cases same
      rcases Text.eq_append_of_skipMostBlanks? skipped with ⟨blanks, clause, _, rfl, stopped⟩
      unfold clauseEnd? at stopped
      split at stopped
      · cases stopped
      · rcases Text.eq_append_of_seek? stopped with ⟨accepted, passed, rfl⟩
        refine ⟨accepted, unit :: (blanks ++ passed), ?_⟩
        rw [wordSplit, List.cons_append, List.append_assoc]
    · cases found

theorem MultiCharLiteral.eq_append_of_literal {before ahead content rest : Text}
    (found : literal before ahead = some (content, rest)) :
    ahead = CodeUnit.singleQuote :: (content ++ CodeUnit.singleQuote :: rest) := by
  simp only [literal, Option.bind_eq_bind, Option.bind_eq_some_iff] at found
  rcases found with ⟨behind, openingRead, ⟨read, stop⟩, contentRead, found⟩
  split at found
  · cases found
    rw [Text.after?_eq_some_iff.mp openingRead, (Text.upTo?_eq_some_iff.mp contentRead).2]
    rfl
  · cases found

theorem RedundantConversion.eq_append_of_call {before ahead rest : Text}
    (found : call before ahead = some ((), rest)) :
    ∃ numeral, ahead = "T(" ++ (numeral ++ CodeUnit.closingParenthesis :: rest) := by
  simp only [call, Option.bind_eq_bind, Option.bind_eq_some_iff] at found
  rcases found with ⟨behind, openingRead, found⟩
  split at found
  · cases found
  · rcases Option.bind_eq_some_iff.mp found with ⟨stop, closingRead, same⟩
    cases same
    have closed : behind.dropWhile isNumeral = CodeUnit.closingParenthesis :: rest :=
      Text.after?_eq_some_iff.mp closingRead
    refine ⟨behind.takeWhile isNumeral, ?_⟩
    rw [Text.after?_eq_some_iff.mp openingRead, ← closed, List.takeWhile_append_dropWhile]

theorem VagueFilter.eq_append_of_lambda {before ahead content rest : Text}
    (found : lambda before ahead = some (content, rest)) :
    ∃ body, ahead = "filter(tf -> \"" ++ (content ++ CodeUnit.doubleQuote ::
      (" not in " ++ (body ++ CodeUnit.closingParenthesis :: rest))) := by
  simp only [lambda, Option.bind_eq_bind, Option.bind_eq_some_iff] at found
  rcases found with
    ⟨behind, openingRead, ⟨read, afterContent⟩, contentRead, afterWords, wordsRead, stop,
      closingRead, same⟩
  cases same
  have closed : (afterWords.dropWhile fun unit =>
      !unit.isLineEnd && unit != CodeUnit.closingParenthesis) =
      CodeUnit.closingParenthesis :: rest :=
    Text.after?_eq_some_iff.mp closingRead
  have wordsSplit : afterContent = " not in " ++ afterWords :=
    Text.after?_eq_some_iff.mp wordsRead
  refine ⟨afterWords.takeWhile fun unit =>
    !unit.isLineEnd && unit != CodeUnit.closingParenthesis, ?_⟩
  rw [← closed, List.takeWhile_append_dropWhile, Text.after?_eq_some_iff.mp openingRead,
    (Text.upTo?_eq_some_iff.mp contentRead).2, wordsSplit]

/-! ## Filters and their quoted texts -/

theorem VagueFilter.lambda_advances : lambda.Advances := by
  intro before ahead content rest found
  rcases eq_append_of_lambda found with ⟨body, rfl⟩
  refine ⟨"filter(tf -> \"" ++ (content ++ CodeUnit.doubleQuote ::
    (" not in " ++ (body ++ [CodeUnit.closingParenthesis]))), List.cons_ne_nil _ _, ?_⟩
  simp only [List.append_assoc, List.cons_append, List.nil_append]

theorem VagueFilter.doubleQuote_not_mem_of_lambda {before ahead content rest : Text}
    (found : lambda before ahead = some (content, rest)) : CodeUnit.doubleQuote ∉ content := by
  simp only [lambda, Option.bind_eq_bind, Option.bind_eq_some_iff] at found
  rcases found with ⟨_, _, ⟨_, _⟩, contentRead, _, _, _, _, same⟩
  cases same
  exact (Text.upTo?_eq_some_iff.mp contentRead).1

theorem VagueFilter.eq_append_of_quoted {before ahead content rest : Text}
    (found : quoted before ahead = some (content, rest)) :
    ahead = "\"" ++ (content ++ CodeUnit.doubleQuote :: rest) := by
  simp only [quoted, Option.bind_eq_bind, Option.bind_eq_some_iff] at found
  rcases found with ⟨_, openingRead, contentRead⟩
  rw [Text.after?_eq_some_iff.mp openingRead, (Text.upTo?_eq_some_iff.mp contentRead).2]

theorem VagueFilter.quoted_advances : quoted.Advances := by
  intro before ahead content rest found
  refine ⟨"\"" ++ (content ++ [CodeUnit.doubleQuote]), List.cons_ne_nil _ _, ?_⟩
  rw [eq_append_of_quoted found]
  simp only [List.append_assoc, List.cons_append, List.nil_append]

theorem VagueFilter.occurrences_quoted_eq_nil {text : Text}
    (unquoted : CodeUnit.doubleQuote ∉ text) : quoted.occurrences text = [] := by
  cases found : quoted.occurrences text with
  | nil => rfl
  | cons first others =>
      rcases Pattern.eq_append_of_mem_scanFrom quoted_advances (found ▸ List.mem_cons_self) with
        ⟨lead, rest, split, _, read⟩
      apply absurd _ unquoted
      rw [split, eq_append_of_quoted read]
      exact List.mem_append_right _ List.mem_cons_self

/-- The text of a filter stops at the first mark, so every filter is reported. -/
theorem VagueFilter.findings_eq_map (source : Text) :
    findings source = (lambda.occurrences source).map fun occurrence =>
      Rule.vagueFilter.finding
        ("Vague filter 'not in' for '" ++ occurrence.capture ++ "' – check quotes")
        (some (source.positionAt occurrence.start)) [] := by
  have allVague : (lambda.occurrences source).filter (fun occurrence =>
      (quoted.occurrences occurrence.capture).isEmpty) = lambda.occurrences source := by
    apply List.filter_eq_self.mpr
    intro occurrence listed
    rcases Pattern.eq_append_of_mem_scanFrom lambda_advances listed with ⟨_, rest, _, _, read⟩
    rw [occurrences_quoted_eq_nil (doubleQuote_not_mem_of_lambda read), List.isEmpty_nil]
  rw [findings, allVague]

/-! ## Foreign words -/

theorem ForeignOperator.eq_append_of_wholeWord {before ahead rest : Text} {word : Word}
    (found : wholeWord before ahead = some (word, rest)) : ahead = word.spelling ++ rest := by
  unfold wholeWord at found
  split at found
  · cases found
  · rcases List.exists_of_findSome?_eq_some found with ⟨tried, _, read⟩
    rcases Option.bind_eq_some_iff.mp read with ⟨behind, wordRead, kept⟩
    split at kept
    · cases kept
    · cases kept
      exact Text.after?_eq_some_iff.mp wordRead

theorem ForeignOperator.Word.spelling_ne_nil (word : Word) : word.spelling ≠ [] := by
  cases word <;> decide

theorem ForeignOperator.wholeWord_advances : wholeWord.Advances := by
  intro before ahead word rest found
  exact ⟨word.spelling, word.spelling_ne_nil, eq_append_of_wholeWord found⟩

theorem ForeignOperator.matched_eq_spelling {source : Text} {occurrence : Occurrence Word}
    (listed : occurrence ∈ wholeWord.occurrences source) :
    occurrence.matched = occurrence.capture.spelling := by
  rcases Pattern.eq_append_of_mem_scanFrom wholeWord_advances listed with ⟨_, rest, _, _, read⟩
  exact List.append_cancel_right (eq_append_of_wholeWord read)

theorem ForeignOperator.mem_wordsIn {occurrences : List (Occurrence Word)} {text : Text} :
    text ∈ wordsIn occurrences ↔ ∃ occurrence ∈ occurrences, occurrence.matched = text := by
  rw [wordsIn, Text.mem_ascending, List.mem_eraseDups, List.mem_map]

/-- The words that a finding lists are foreign words as they are spelled. -/
theorem ForeignOperator.exists_spelling_of_mem_wordsIn {source : Text}
    {occurrences : List (Occurrence Word)} (found : wholeWord.occurrences source = occurrences)
    {text : Text} (member : text ∈ wordsIn occurrences) : ∃ word : Word, text = word.spelling := by
  rcases mem_wordsIn.mp member with ⟨occurrence, listed, rfl⟩
  exact ⟨occurrence.capture, matched_eq_spelling (found ▸ listed)⟩

end JuliaLint

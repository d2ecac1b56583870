import JuliaLint.Proofs.Seams

namespace JuliaLint

/-!
# Line feeds with and without carriage returns

Writing a carriage return in front of every line feed moves what follows it, but
five of the rules say the same about the script as before.

For four of them it is enough to look at a single line feed, since each of the
others can be treated in the same way afterwards.  A carriage return in front of
it adds an empty line, lies between two patterns that do not look over it, or is
blank space at the end of a line that indents nothing.

The word `function` and the name behind it may stand on different lines, so the
pattern for a header does look over line ends.  It reads the changed text as it
reads the original, and what it leaves is what it would have left, with the
carriage returns put in.
-/

namespace Text

def withCarriageReturns (text : Text) : Text :=
  text.flatMap fun unit =>
    if unit = CodeUnit.lineFeed then
      [CodeUnit.carriageReturn, CodeUnit.lineFeed]
    else
      [unit]

theorem withCarriageReturns_append (front back : Text) :
    withCarriageReturns (front ++ back) =
      withCarriageReturns front ++ withCarriageReturns back :=
  List.flatMap_append

theorem withCarriageReturns_cons_lineFeed (text : Text) :
    withCarriageReturns (CodeUnit.lineFeed :: text) =
      CodeUnit.carriageReturn :: CodeUnit.lineFeed :: withCarriageReturns text :=
  rfl

theorem withCarriageReturns_cons_of_ne {unit : CodeUnit} (other : unit ≠ CodeUnit.lineFeed)
    (text : Text) : withCarriageReturns (unit :: text) = unit :: withCarriageReturns text := by
  rw [withCarriageReturns, List.flatMap_cons, if_neg other, List.singleton_append]
  rfl

theorem withCarriageReturns_ne_nil {text : Text} (nonempty : text ≠ []) :
    withCarriageReturns text ≠ [] := by
  cases text with
  | nil => exact absurd rfl nonempty
  | cons unit text =>
      by_cases feed : unit = CodeUnit.lineFeed
      · subst feed
        exact List.cons_ne_nil _ _
      · rw [withCarriageReturns_cons_of_ne feed]
        exact List.cons_ne_nil _ _

/-- What one carriage return in front of a line feed does not change, no number of them does. -/
theorem withCarriageReturns_invariant {β : Type} {measure : Text → β}
    (step : ∀ front back,
      measure (front ++ CodeUnit.carriageReturn :: CodeUnit.lineFeed :: back) =
        measure (front ++ CodeUnit.lineFeed :: back))
    (text : Text) : measure (withCarriageReturns text) = measure text := by
  have behind : ∀ front, measure (front ++ withCarriageReturns text) = measure (front ++ text) := by
    induction text with
    | nil => exact fun front => rfl
    | cons unit text ih =>
        intro front
        have later := ih (front ++ [unit])
        rw [List.append_assoc, List.append_assoc] at later
        by_cases feed : unit = CodeUnit.lineFeed
        · subst feed
          rw [withCarriageReturns_cons_lineFeed, step]
          exact later
        · rw [withCarriageReturns_cons_of_ne feed]
          exact later
  exact behind []

end Text

/-! ## Patterns that stop at line ends -/

theorem Pattern.readings_withCarriageReturns {α : Type} {pattern : Pattern α}
    (advances : pattern.Advances)
    (parted : ∀ unit : CodeUnit, unit.isLineEnd = true → pattern.PartedBy unit) (text : Text) :
    pattern.readings text.withCarriageReturns = pattern.readings text := by
  refine Text.withCarriageReturns_invariant (fun front back => ?_) text
  have feed := parted CodeUnit.lineFeed (by decide)
  have carriage := parted CodeUnit.carriageReturn (by decide)
  have nothing : pattern.readings [] = [] := rfl
  rw [readings_append_cons advances carriage, readings_append_cons advances feed,
    ← List.nil_append (CodeUnit.lineFeed :: back), readings_append_cons advances feed, nothing,
    List.nil_append]

/-- A message shows what the pattern reads and nothing else of the script. -/
theorem RedundantConversion.messages_eq (source : Text) :
    (findings source).map Finding.message =
      match (call.readings source).map Prod.fst with
      | [] => []
      | listed => ["Redundant T(0.5): " ++ Text.quotedList (listed.take 3) ++
          "... – remove T()"] := by
  rw [← Pattern.map_matched_occurrences]
  unfold findings
  cases call.occurrences source with
  | nil => rfl
  | cons first others =>
      simp only [List.map_take]
      rfl

/-- A message shows the words that occur and nothing else of the script. -/
theorem ForeignOperator.messages_eq (source : Text) :
    (findings source).map Finding.message =
      match (wholeWord.readings source).map Prod.fst with
      | [] => []
      | words => ["Non-Julia operators: " ++
          Text.join ", " (((Text.ascending words.eraseDups).take 3).map advice) ++ "..."] := by
  rw [← Pattern.map_matched_occurrences]
  unfold findings
  cases wholeWord.occurrences source with
  | nil => rfl
  | cons first others => rfl

/-! ## Lines and quotation marks -/

theorem QuoteBalance.quoteCount_withCarriageReturns (text : Text) :
    quoteCount text.withCarriageReturns = quoteCount text := by
  refine Text.withCarriageReturns_invariant (fun front back => ?_) text
  rw [quoteCount_append_cons rfl, quoteCount_append_cons rfl]
  rfl

theorem BlockBalance.closingCount_withCarriageReturns (text : Text) :
    closingCount text.withCarriageReturns = closingCount text := by
  refine Text.withCarriageReturns_invariant (fun front back => ?_) text
  have feedEnds : CodeUnit.lineFeed.isLineEnd = true := by decide
  have returnEnds : CodeUnit.carriageReturn.isLineEnd = true := by decide
  have nothing : closingCount [] = 0 := rfl
  rw [closingCount_append_cons returnEnds, closingCount_append_cons feedEnds,
    ← List.nil_append (CodeUnit.lineFeed :: back), closingCount_append_cons feedEnds, nothing,
    Nat.zero_add]

theorem Text.leadingBlanks_append_of_not_blank {text : Text} (filled : isBlank text = false)
    (rest : Text) : leadingBlanks (text ++ rest) = leadingBlanks text := by
  have whole := leadingBlanks_append_skipBlanks (text ++ rest)
  rw [skipBlanks_append_of_not_blank filled, ← List.append_assoc] at whole
  have front : leadingBlanks (text ++ rest) ++ skipBlanks text = text :=
    List.append_cancel_right whole
  exact List.append_cancel_right (front.trans (leadingBlanks_append_skipBlanks text).symm)

namespace IndentConsistency

/-- Blank space behind a line neither fills it nor indents it. -/
theorem remainders_concat_of_isBlank {unit : CodeUnit} (blank : unit.isBlank = true)
    (inLine : unit ≠ CodeUnit.lineFeed) (text : Text) :
    remainders (text ++ [unit]) = remainders text := by
  have sameLines : ∃ lines last, Text.lines text = lines ++ [last] ∧
      Text.lines (text ++ [unit]) = lines ++ [last ++ [unit]] := by
    apply Text.splitWhere_concat_of_inner
    exact beq_false_of_ne inLine
  rcases sameLines with ⟨lines, last, split, longer⟩
  have sameBlank : Text.isBlank (last ++ [unit]) = Text.isBlank last := by
    simp [Text.isBlank, blank]
  unfold remainders
  rw [split, longer, List.filter_append, List.filter_append, List.map_append, List.map_append]
  congr 1
  cases lastBlank : Text.isBlank last with
  | true => simp [sameBlank, lastBlank]
  | false => simp [sameBlank, lastBlank, Text.leadingBlanks_append_of_not_blank lastBlank]

theorem remainders_withCarriageReturns (text : Text) :
    remainders text.withCarriageReturns = remainders text := by
  refine Text.withCarriageReturns_invariant (fun front back => ?_) text
  rw [← List.singleton_append, ← List.append_assoc, remainders_append_lineFeed,
    remainders_concat_of_isBlank (by decide) (by decide), remainders_append_lineFeed]

end IndentConsistency

/-! ## Headers, which may run over several lines -/

namespace Text

theorem after?_withCarriageReturns {word : Text} (noFeed : CodeUnit.lineFeed ∉ word)
    (noReturn : CodeUnit.carriageReturn ∉ word) (text : Text) :
    after? word text.withCarriageReturns = (after? word text).map withCarriageReturns := by
  induction word generalizing text with
  | nil => rfl
  | cons expected word ih =>
      have otherThanFeed : CodeUnit.lineFeed ≠ expected :=
        fun same => noFeed (same ▸ List.mem_cons_self)
      have otherThanReturn : CodeUnit.carriageReturn ≠ expected :=
        fun same => noReturn (same ▸ List.mem_cons_self)
      cases text with
      | nil => rfl
      | cons unit text =>
          by_cases feed : unit = CodeUnit.lineFeed
          · subst feed
            rw [withCarriageReturns_cons_lineFeed, after?, if_neg otherThanReturn, after?,
              if_neg otherThanFeed]
            rfl
          · rw [withCarriageReturns_cons_of_ne feed, after?, after?]
            split
            · exact ih (fun later => noFeed (List.mem_cons_of_mem _ later))
                (fun later => noReturn (List.mem_cons_of_mem _ later)) text
            · rfl

theorem skipBlanks_withCarriageReturns (text : Text) :
    skipBlanks text.withCarriageReturns = (skipBlanks text).withCarriageReturns := by
  induction text with
  | nil => rfl
  | cons unit text ih =>
      by_cases feed : unit = CodeUnit.lineFeed
      · subst feed
        exact ih
      · rw [withCarriageReturns_cons_of_ne feed]
        unfold skipBlanks at ih ⊢
        cases blank : unit.isBlank with
        | true =>
            rw [List.dropWhile_cons_of_pos blank, List.dropWhile_cons_of_pos blank, ih]
        | false =>
            have filled : ¬unit.isBlank = true := Bool.eq_false_iff.mp blank
            rw [List.dropWhile_cons_of_neg filled, List.dropWhile_cons_of_neg filled,
              withCarriageReturns_cons_of_ne feed]

theorem skipSomeBlanks?_withCarriageReturns (text : Text) :
    skipSomeBlanks? text.withCarriageReturns =
      (skipSomeBlanks? text).map withCarriageReturns := by
  cases text with
  | nil => rfl
  | cons unit text =>
      by_cases feed : unit = CodeUnit.lineFeed
      · subst feed
        exact congrArg some (skipBlanks_withCarriageReturns text)
      · rw [withCarriageReturns_cons_of_ne feed, skipSomeBlanks?, skipSomeBlanks?]
        split
        · exact congrArg some (skipBlanks_withCarriageReturns text)
        · rfl

theorem skipNameCharacter?_cons_of_isBlank {unit : CodeUnit} (blank : unit.isBlank = true)
    (rest : Text) : skipNameCharacter? (unit :: rest) = none := by
  rw [skipNameCharacter?, startsInName_cons_of_isBlank blank]
  rfl

/-- A blank unit behind a name character is not read with it. -/
theorem skipNameCharacter?_cons_cons_of_isBlank {unit : CodeUnit} (blank : unit.isBlank = true)
    (first : CodeUnit) (rest : Text) :
    skipNameCharacter? (first :: unit :: rest) =
      if startsInName [first] then some (unit :: rest) else none := by
  have plain := CodeUnit.isSurrogate_eq_false_of_isBlank blank
  have notTrail : unit.isTrailSurrogate = false := (Bool.or_eq_false_iff.mp plain).2
  have alone : startsInName (first :: unit :: rest) = startsInName [first] :=
    startsInName_append_cons_of_isBlank blank [first] rest
  rw [skipNameCharacter?, alone, skipCodePoint, notTrail, Bool.and_false, if_neg Bool.false_ne_true]

theorem skipNameCharacter?_withCarriageReturns (text : Text) :
    skipNameCharacter? text.withCarriageReturns =
      (skipNameCharacter? text).map withCarriageReturns := by
  have feedBlank : CodeUnit.lineFeed.isBlank = true := by decide
  have returnBlank : CodeUnit.carriageReturn.isBlank = true := by decide
  cases text with
  | nil => rfl
  | cons first text =>
      by_cases firstFeed : first = CodeUnit.lineFeed
      · subst firstFeed
        rw [withCarriageReturns_cons_lineFeed, skipNameCharacter?_cons_of_isBlank returnBlank,
          skipNameCharacter?_cons_of_isBlank feedBlank]
        rfl
      rw [withCarriageReturns_cons_of_ne firstFeed]
      cases text with
      | nil =>
          have nothing : withCarriageReturns [] = [] := rfl
          rw [nothing, skipNameCharacter?]
          split <;> rfl
      | cons second text =>
          by_cases secondFeed : second = CodeUnit.lineFeed
          · subst secondFeed
            rw [withCarriageReturns_cons_lineFeed,
              skipNameCharacter?_cons_cons_of_isBlank returnBlank,
              skipNameCharacter?_cons_cons_of_isBlank feedBlank]
            split <;> rfl
          · rw [withCarriageReturns_cons_of_ne secondFeed]
            unfold skipNameCharacter?
            have sameStart : startsInName (first :: second :: withCarriageReturns text) =
                startsInName (first :: second :: text) := rfl
            rw [sameStart, skipCodePoint, skipCodePoint]
            split
            · split
              · rfl
              · rw [Option.map_some, withCarriageReturns_cons_of_ne secondFeed]
            · rfl

end Text

namespace BlockBalance

theorem functionHeader_advances : functionHeader.Advances := by
  intro before ahead capture rest found
  rcases Option.bind_eq_some_iff.mp found with ⟨behindWord, wordRead, found⟩
  rcases Option.bind_eq_some_iff.mp found with ⟨behindSpace, spaceRead, found⟩
  rcases Option.bind_eq_some_iff.mp found with ⟨stop, nameRead, same⟩
  cases same
  rcases Text.eq_append_of_skipSomeBlanks? spaceRead with ⟨space, _, _, spaceSplit⟩
  rcases Text.skipNameCharacter?_eq_some_iff.mp nameRead with ⟨character, _, nameSplit⟩
  refine ⟨"function" ++ (space ++ Text.ofCodePoint character.toNat), List.cons_ne_nil _ _, ?_⟩
  rw [Text.after?_eq_some_iff.mp wordRead, spaceSplit, nameSplit]
  simp only [List.append_assoc]

/-- A header is read in the changed text as in the original. -/
theorem functionHeader_withCarriageReturns (before otherBefore ahead : Text) :
    functionHeader otherBefore ahead.withCarriageReturns =
      (functionHeader before ahead).map fun read => (read.1, read.2.withCarriageReturns) := by
  unfold functionHeader
  rw [Text.after?_withCarriageReturns (by decide) (by decide)]
  cases Text.after? "function" ahead with
  | none => rfl
  | some behindWord =>
      simp only [Option.map_some, Option.bind_eq_bind, Option.bind_some]
      rw [Text.skipSomeBlanks?_withCarriageReturns]
      cases Text.skipSomeBlanks? behindWord with
      | none => rfl
      | some behindSpace =>
          simp only [Option.map_some, Option.bind_some]
          rw [Text.skipNameCharacter?_withCarriageReturns]
          cases Text.skipNameCharacter? behindSpace <;> rfl

/-- No header starts at a line feed. -/
theorem functionHeader_lineFeed (before ahead : Text) :
    functionHeader before (CodeUnit.lineFeed :: ahead) = none :=
  rfl

theorem length_scanFrom_functionHeader (before otherBefore ahead : Text) :
    (Pattern.scanFrom functionHeader otherBefore 0 ahead.withCarriageReturns).length =
      (Pattern.scanFrom functionHeader before 0 ahead).length := by
  induction before, ahead using Pattern.walk_induction functionHeader_advances
    generalizing otherBefore with
  | finished before => rfl
  | refused before unit ahead outcome ih =>
      have alsoRefused : ∀ front,
          functionHeader front (Text.withCarriageReturns (unit :: ahead)) = none := by
        intro front
        rw [functionHeader_withCarriageReturns before, outcome]
        rfl
      rw [Pattern.scanFrom_of_refused outcome]
      by_cases feed : unit = CodeUnit.lineFeed
      · subst feed
        rw [Text.withCarriageReturns_cons_lineFeed] at alsoRefused ⊢
        rw [Pattern.scanFrom_of_refused (alsoRefused _),
          Pattern.scanFrom_of_refused (functionHeader_lineFeed _ _)]
        exact ih _
      · rw [Text.withCarriageReturns_cons_of_ne feed] at alsoRefused ⊢
        rw [Pattern.scanFrom_of_refused (alsoRefused _)]
        exact ih _
  | accepted before matched capture rest nonempty outcome ih =>
      have alsoAccepted : functionHeader otherBefore
          (Text.withCarriageReturns matched ++ Text.withCarriageReturns rest) =
            some (capture, Text.withCarriageReturns rest) := by
        rw [← Text.withCarriageReturns_append, functionHeader_withCarriageReturns before, outcome]
        rfl
      rw [Text.withCarriageReturns_append,
        Pattern.scanFrom_of_accepted (Text.withCarriageReturns_ne_nil nonempty) alsoAccepted,
        Pattern.scanFrom_of_accepted nonempty outcome, List.length_cons, List.length_cons, ih]

theorem headerCount_withCarriageReturns (text : Text) :
    headerCount text.withCarriageReturns = headerCount text :=
  length_scanFrom_functionHeader [] [] text

end BlockBalance

/--
Carriage returns in front of the line feeds of a script change no message of the
rules on block balance, quotation marks, indentation, numeric conversions and
foreign words.
-/
theorem messages_withCarriageReturns (source : Text) :
    (Rule.blockBalance.findings source.withCarriageReturns).map Finding.message =
        (Rule.blockBalance.findings source).map Finding.message ∧
      (Rule.quoteBalance.findings source.withCarriageReturns).map Finding.message =
        (Rule.quoteBalance.findings source).map Finding.message ∧
      (Rule.indentConsistency.findings source.withCarriageReturns).map Finding.message =
        (Rule.indentConsistency.findings source).map Finding.message ∧
      (Rule.redundantConversion.findings source.withCarriageReturns).map Finding.message =
        (Rule.redundantConversion.findings source).map Finding.message ∧
      (Rule.foreignOperator.findings source.withCarriageReturns).map Finding.message =
        (Rule.foreignOperator.findings source).map Finding.message := by
  simp only [Rule.findings]
  refine ⟨?_, ?_, ?_, ?_, ?_⟩
  · unfold BlockBalance.findings
    rw [BlockBalance.headerCount_withCarriageReturns, BlockBalance.closingCount_withCarriageReturns]
  · unfold QuoteBalance.findings
    rw [QuoteBalance.quoteCount_withCarriageReturns]
  · unfold IndentConsistency.findings
    rw [IndentConsistency.remainders_withCarriageReturns]
  · rw [RedundantConversion.messages_eq, RedundantConversion.messages_eq,
      Pattern.readings_withCarriageReturns RedundantConversion.call_advances
        fun _ ends => RedundantConversion.call_partedBy ends]
  · rw [ForeignOperator.messages_eq, ForeignOperator.messages_eq,
      Pattern.readings_withCarriageReturns ForeignOperator.wholeWord_advances
        fun _ ends => ForeignOperator.wholeWord_partedBy ends]

end JuliaLint

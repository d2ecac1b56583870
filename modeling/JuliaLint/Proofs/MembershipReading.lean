import JuliaLint.Proofs.MembershipGrammar
import JuliaLint.Rule.QuoteBalance

namespace JuliaLint

/-!
# Where a quoted membership test can be read

Whether a test can be read at a quotation mark depends on two things only: the
mark of the same kind that closes the quoted text, and what stands behind that
closing mark.  So a text holds a test exactly when some mark that is not the
first of its kind is followed by the words `not` and `in` and an operand.

Reading behind a mark stops at the first unit that no step can take.  Two texts
that share everything up to such a unit are therefore read alike, whatever
follows it.  This is what lets a script be compared with its repair, which
differ only from the opening mark of a match on.
-/

/-! ## Reading steps on a longer text -/

theorem isSome_largest?_iff {β : Type} {attempt : Nat → Option β} {bound : Nat} :
    (largest? attempt bound).isSome = true ↔
      ∃ number ≤ bound, (attempt number).isSome = true := by
  constructor
  · intro found
    rcases Option.isSome_iff_exists.mp found with ⟨answer, answered⟩
    rcases largest?_eq_some_iff.mp answered with ⟨number, within, succeeded, _⟩
    exact ⟨number, within, succeeded ▸ rfl⟩
  · rintro ⟨number, within, succeeded⟩
    apply Option.isSome_iff_ne_none.mpr
    intro refused
    rw [largest?_eq_none_iff.mp refused number within] at succeeded
    cases succeeded

namespace Text

theorem skipBlanks_append_of_blank {text : Text} (blank : isBlank text = true)
    (rest : Text) : skipBlanks (text ++ rest) = skipBlanks rest := by
  unfold skipBlanks
  rw [List.dropWhile_append, show text.dropWhile CodeUnit.isBlank = [] from
    skipBlanks_eq_nil_iff.mpr blank]
  rfl

theorem leadingBlanks_append_of_blank {text : Text} (blank : isBlank text = true)
    (rest : Text) : leadingBlanks (text ++ rest) = text ++ leadingBlanks rest :=
  List.takeWhile_append_of_pos (List.all_eq_true.mp blank)

theorem skipBlanks_append_of_not_blank {text : Text} (filled : isBlank text = false)
    (rest : Text) : skipBlanks (text ++ rest) = skipBlanks text ++ rest := by
  have remains : skipBlanks text ≠ [] := by
    intro nothing
    rw [skipBlanks_eq_nil_iff.mp nothing] at filled
    cases filled
  unfold skipBlanks at remains ⊢
  rw [List.dropWhile_append, if_neg]
  simpa using remains

theorem skipSomeBlanks?_append_of_not_blank {text : Text} (filled : isBlank text = false)
    (rest : Text) :
    skipSomeBlanks? (text ++ rest) = (skipSomeBlanks? text).map fun read => read ++ rest := by
  cases text with
  | nil => cases filled
  | cons unit text =>
      simp only [List.cons_append, skipSomeBlanks?]
      split
      · next unitBlank =>
        have othersFilled : isBlank text = false := by
          simpa [isBlank, unitBlank] using filled
        rw [skipBlanks_append_of_not_blank othersFilled]
        rfl
      · rfl

theorem skipBlanks_append_cons {unit : CodeUnit} (filled : unit.isBlank = false)
    (text rest : Text) : skipBlanks (text ++ unit :: rest) = skipBlanks text ++ unit :: rest := by
  cases textBlank : isBlank text with
  | true =>
      rw [skipBlanks_append_of_blank textBlank, skipBlanks_eq_nil_iff.mpr textBlank]
      simp [skipBlanks, filled]
  | false => exact skipBlanks_append_of_not_blank textBlank _

theorem skipSomeBlanks?_append_cons {unit : CodeUnit} (filled : unit.isBlank = false)
    (text rest : Text) :
    skipSomeBlanks? (text ++ unit :: rest) =
      (skipSomeBlanks? text).map fun read => read ++ unit :: rest := by
  cases text with
  | nil => simp [skipSomeBlanks?, filled]
  | cons first text =>
      simp only [List.cons_append, skipSomeBlanks?]
      split
      · rw [skipBlanks_append_cons filled]
        rfl
      · rfl

/-- A word without a unit is read in front of that unit or not at all. -/
theorem after?_append_cons {word : Text} {unit : CodeUnit} (absent : unit ∉ word)
    (text rest : Text) :
    after? word (text ++ unit :: rest) =
      (after? word text).map fun read => read ++ unit :: rest := by
  induction word generalizing text with
  | nil => rfl
  | cons expected word ih =>
      have differs : unit ≠ expected := fun same => absent (same ▸ List.mem_cons_self)
      have absentLater : unit ∉ word := fun later => absent (List.mem_cons_of_mem _ later)
      cases text with
      | nil => simp [after?, differs]
      | cons first text =>
          simp only [List.cons_append, after?]
          split
          · exact ih absentLater text
          · rfl

end Text

namespace NegatedMembership

/-! ## What follows a closing mark -/

def afterIn? (text : Text) : Option Text :=
  (Text.skipSomeBlanks? text).bind fun ahead => Text.after? "in" ahead

def afterWords? (text : Text) : Option Text :=
  (Text.after? "not" (Text.skipBlanks text)).bind afterIn?

/-- Whether an operand can be read once enough blank units are given back. -/
def offersOperand : Text → Bool
  | [] => false
  | unit :: text => !endsOperand unit || (unit.isBlank && offersOperand text)

def startsTest (text : Text) : Bool :=
  (afterWords? text).any offersOperand

theorem isSome_operand?_cons (unit : CodeUnit) (text : Text) :
    (operand? (unit :: text)).isSome = !endsOperand unit := by
  unfold operand?
  cases ends : endsOperand unit <;> simp [ends]

theorem isSome_skipMostBlanks?_operand? (text : Text) :
    (Text.skipMostBlanks? operand? text).isSome = offersOperand text := by
  induction text with
  | nil => rfl
  | cons unit text ih =>
      apply Bool.eq_iff_iff.mpr
      rw [offersOperand, Bool.or_eq_true, Bool.and_eq_true, ← ih,
        ← isSome_operand?_cons unit text]
      unfold Text.skipMostBlanks?
      rw [isSome_largest?_iff, isSome_largest?_iff]
      constructor
      · rintro ⟨count, within, succeeded⟩
        cases count with
        | zero => exact Or.inl succeeded
        | succ count =>
            by_cases unitBlank : unit.isBlank = true
            · rw [Text.leadingBlanks, List.takeWhile_cons_of_pos unitBlank] at within
              exact Or.inr ⟨unitBlank, count, Nat.le_of_succ_le_succ within, succeeded⟩
            · rw [Text.leadingBlanks, List.takeWhile_cons_of_neg unitBlank] at within
              exact absurd within (Nat.not_succ_le_zero count)
      · rintro (succeeded | ⟨unitBlank, count, within, succeeded⟩)
        · exact ⟨0, Nat.zero_le _, succeeded⟩
        · refine ⟨count + 1, ?_, succeeded⟩
          rw [Text.leadingBlanks, List.takeWhile_cons_of_pos unitBlank]
          exact Nat.succ_le_succ within

/-- A test is read in three steps: the quoted text, the two words and the operand. -/
theorem expression_eq_bind (before ahead : Text) :
    expression before ahead = (quotedText? ahead).bind fun quoted =>
      (afterWords? quoted.2.2).bind fun ahead =>
        (Text.skipMostBlanks? operand? ahead).bind fun read =>
          some ({ quote := quoted.1, content := quoted.2.1, operand := read.1 }, read.2) := by
  simp only [expression, afterWords?, afterIn?, Option.bind_eq_bind, Option.bind_assoc]
  rfl

/-- A test is read exactly if there is a quoted text and a test starts behind it. -/
theorem isSome_expression (before ahead : Text) :
    (expression before ahead).isSome =
      (quotedText? ahead).any fun quoted => startsTest quoted.2.2 := by
  rw [expression_eq_bind]
  simp only [Option.isSome_bind, Option.isSome_some, Option.any_true,
    isSome_skipMostBlanks?_operand?, startsTest]

/-! ## Marks that close a quoted text -/

theorem isQuote_iff {unit : CodeUnit} :
    QuoteBalance.isQuote unit = true ↔
      unit = CodeUnit.doubleQuote ∨ unit = CodeUnit.singleQuote := by
  unfold QuoteBalance.isQuote
  rw [Bool.or_eq_true, beq_iff_eq, beq_iff_eq]

theorem quotedText?_of_mark {quote : CodeUnit} (isMark : QuoteBalance.isQuote quote = true)
    {content : Text} (absent : quote ∉ content) (behind : Text) :
    quotedText? (quote :: (content ++ quote :: behind)) = some (quote, content, behind) := by
  rw [quotedText?, if_pos (isQuote_iff.mp isMark), Text.upTo?_eq_some_iff.mpr ⟨absent, rfl⟩]
  rfl

/--
A text holds a quoted membership test exactly when some quotation mark that is
not the first of its kind is followed by a test.
-/
theorem occurrences_ne_nil_iff {text : Text} :
    expression.occurrences text ≠ [] ↔
      ∃ lead mark behind, text = lead ++ mark :: behind ∧
        QuoteBalance.isQuote mark = true ∧ mark ∈ lead ∧ startsTest behind = true := by
  unfold Pattern.occurrences
  rw [Pattern.scanFrom_ne_nil_iff expression_advances]
  constructor
  · rintro ⟨lead, ahead, split, read⟩
    rw [isSome_expression] at read
    cases quoted : quotedText? ahead with
    | none => simp [quoted] at read
    | some parts =>
        rcases parts with ⟨mark, content, behind⟩
        rw [quoted] at read
        rcases eq_append_of_quotedText? quoted with ⟨isMark, _, aheadSplit⟩
        refine ⟨lead ++ mark :: content, mark, behind, ?_, isQuote_iff.mpr isMark, ?_, read⟩
        · rw [split, aheadSplit, List.append_assoc, List.cons_append]
        · exact List.mem_append_right _ List.mem_cons_self
  · rintro ⟨lead, mark, behind, split, isMark, earlier, starts⟩
    -- the last mark of the kind in front opens the quoted text
    rcases List.eq_append_cons_of_mem (List.mem_reverse.mpr earlier) with
        ⟨contentBackwards, leadBackwards, leadSplit, absent⟩
    have opened : lead =
        leadBackwards.reverse ++ mark :: contentBackwards.reverse := by
      have reversed := congrArg List.reverse leadSplit
      simpa using reversed
    refine ⟨leadBackwards.reverse, mark :: (contentBackwards.reverse ++ mark :: behind), ?_, ?_⟩
    · rw [split, opened, List.append_assoc, List.cons_append]
    · rw [isSome_expression, quotedText?_of_mark isMark (by simpa using absent)]
      exact starts

/-- The rule reports a text that holds a test and, somewhere, a plain `not in`. -/
theorem findings_ne_nil_iff {text : Text} :
    findings text ≠ [] ↔
      expression.occurrences text ≠ [] ∧ Text.holds "not in" text = true := by
  rw [findings_eq]
  split
  · next plain =>
    cases expression.occurrences text with
    | nil => simp
    | cons first others => simp [plain]
  · next absent => simp [absent]

/-! ## Texts that are read alike -/

/-- No step of reading takes the unit, and an operand may start with it. -/
structure StopsReading (unit : CodeUnit) : Prop where
  not_blank : unit.isBlank = false
  not_end : endsOperand unit = false
  not_mem_not : unit ∉ Text.ofString "not"
  not_mem_in : unit ∉ Text.ofString "in"

theorem stopsReading_of_isQuote {unit : CodeUnit} (isMark : QuoteBalance.isQuote unit = true) :
    StopsReading unit := by
  rcases isQuote_iff.mp isMark with rfl | rfl
  · exact ⟨by decide, by decide, by decide, by decide⟩
  · exact ⟨by decide, by decide, by decide, by decide⟩

theorem offersOperand_append_cons {first second : CodeUnit} (firstOpen : endsOperand first = false)
    (secondOpen : endsOperand second = false) (text rest other : Text) :
    offersOperand (text ++ first :: rest) = offersOperand (text ++ second :: other) := by
  induction text with
  | nil => simp [offersOperand, firstOpen, secondOpen]
  | cons unit text ih => simp only [List.cons_append, offersOperand, ih]

theorem afterIn?_append_cons {unit : CodeUnit} (stops : StopsReading unit) (text rest : Text) :
    afterIn? (text ++ unit :: rest) = (afterIn? text).map fun read => read ++ unit :: rest := by
  unfold afterIn?
  rw [Text.skipSomeBlanks?_append_cons stops.not_blank]
  cases Text.skipSomeBlanks? text with
  | none => rfl
  | some behindBlanks => exact Text.after?_append_cons stops.not_mem_in _ _

theorem afterWords?_append_cons {unit : CodeUnit} (stops : StopsReading unit)
    (text rest : Text) :
    afterWords? (text ++ unit :: rest) =
      (afterWords? text).map fun read => read ++ unit :: rest := by
  unfold afterWords?
  rw [Text.skipBlanks_append_cons stops.not_blank, Text.after?_append_cons stops.not_mem_not]
  cases Text.after? "not" (Text.skipBlanks text) with
  | none => rfl
  | some behindNot => exact afterIn?_append_cons stops _ _

/-- What follows the first unit that stops reading does not matter. -/
theorem startsTest_append_cons {first second : CodeUnit} (firstStops : StopsReading first)
    (secondStops : StopsReading second) (text rest other : Text) :
    startsTest (text ++ first :: rest) = startsTest (text ++ second :: other) := by
  unfold startsTest
  rw [afterWords?_append_cons firstStops, afterWords?_append_cons secondStops]
  cases afterWords? text with
  | none => rfl
  | some behind => exact offersOperand_append_cons firstStops.not_end secondStops.not_end _ _ _

/-- Whether the text is the word `not` with nothing but blank space around it. -/
def isBareNot (text : Text) : Bool :=
  (Text.after? "not" (Text.skipBlanks text)).any Text.isBlank

private theorem spaced_in (rest : Text) :
    Text.ofString " in " ++ rest = 0x20 :: (Text.ofString "in" ++ 0x20 :: rest) :=
  rfl

/-- Behind `not`, the word `in` is read either at once or where it was read before. -/
private theorem any_afterIn?_append_in (text rest other : Text) :
    (afterIn? (text ++ (" in " ++ rest))).any offersOperand =
      ((afterIn? (text ++ CodeUnit.doubleQuote :: other)).any offersOperand ||
        Text.isBlank text) := by
  rw [spaced_in]
  cases textBlank : Text.isBlank text with
  | true =>
      have skipped : Text.skipSomeBlanks? (text ++ 0x20 :: (Text.ofString "in" ++ 0x20 :: rest)) =
          some (Text.ofString "in" ++ 0x20 :: rest) := by
        cases text with
        | nil => rfl
        | cons unit text =>
            have blanks : unit.isBlank = true ∧ Text.isBlank text = true := by
              simpa [Text.isBlank] using textBlank
            rw [List.cons_append, Text.skipSomeBlanks?, if_pos blanks.1,
              Text.skipBlanks_append_of_blank blanks.2]
            rfl
      rw [afterIn?, skipped, Option.bind_some,
        Text.after?_eq_some_iff.mpr rfl, Bool.or_true]
      rfl
  | false =>
      have spaceAbsent : (0x20 : CodeUnit) ∉ Text.ofString "in" := by decide
      have markAbsent : CodeUnit.doubleQuote ∉ Text.ofString "in" := by decide
      rw [afterIn?, afterIn?, Text.skipSomeBlanks?_append_of_not_blank textBlank,
        Text.skipSomeBlanks?_append_of_not_blank textBlank, Bool.or_false]
      cases Text.skipSomeBlanks? text with
      | none => rfl
      | some behindBlanks =>
          simp only [Option.map_some, Option.bind_some]
          rw [Text.after?_append_cons spaceAbsent, Text.after?_append_cons markAbsent]
          cases Text.after? "in" behindBlanks with
          | none => rfl
          | some behindIn => exact offersOperand_append_cons (by decide) (by decide) _ _ _

/--
The word `in` behind a text completes a test that breaks off after `not`.  In
any other text it is read no further than a mark in its place.
-/
theorem startsTest_append_in (text rest other : Text) :
    startsTest (text ++ (" in " ++ rest)) =
      (startsTest (text ++ CodeUnit.doubleQuote :: other) || isBareNot text) := by
  unfold startsTest afterWords? isBareNot
  cases textBlank : Text.isBlank text with
  | true =>
      have nothing : Text.skipBlanks text = [] := Text.skipBlanks_eq_nil_iff.mpr textBlank
      rw [Text.skipBlanks_append_of_blank textBlank, Text.skipBlanks_append_of_blank textBlank,
        nothing]
      rfl
  | false =>
      have spaceAbsent : (0x20 : CodeUnit) ∉ Text.ofString "not" := by decide
      have markAbsent : CodeUnit.doubleQuote ∉ Text.ofString "not" := by decide
      rw [Text.skipBlanks_append_of_not_blank textBlank,
        Text.skipBlanks_append_of_not_blank textBlank, Text.after?_append_cons markAbsent,
        spaced_in, Text.after?_append_cons spaceAbsent]
      cases Text.after? "not" (Text.skipBlanks text) with
      | none => rfl
      | some behindNot => exact any_afterIn?_append_in behindNot rest other

end NegatedMembership
end JuliaLint

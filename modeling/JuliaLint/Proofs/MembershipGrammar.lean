import JuliaLint.Rule.NegatedMembership
import JuliaLint.Proofs.Scanning

namespace JuliaLint

/-!
# What a quoted membership test looks like

A match of the pattern is a spelling of the parts that it captures: the quoted
text, the two words and the operand, with blank space between them.  Reading is
a chain of steps, each of which accounts for the units it takes; the chain of
their equations is the spelling.
-/

namespace Text

theorem isBlank_leadingBlanks (text : Text) : isBlank (leadingBlanks text) = true :=
  List.all_takeWhile

/-- Skipping some blank units takes at least one of them, and blank units only. -/
theorem eq_append_of_skipSomeBlanks? {text rest : Text}
    (skipped : skipSomeBlanks? text = some rest) :
    ∃ blanks, blanks ≠ [] ∧ isBlank blanks = true ∧ text = blanks ++ rest := by
  cases text with
  | nil => cases skipped
  | cons unit text =>
      rw [skipSomeBlanks?] at skipped
      split at skipped
      · next unitBlank =>
        have behind : skipBlanks text = rest := Option.some.inj skipped
        subst behind
        refine ⟨unit :: leadingBlanks text, List.cons_ne_nil _ _, ?_, ?_⟩
        · have others := isBlank_leadingBlanks text
          rw [isBlank] at others ⊢
          rw [List.all_cons, unitBlank, others, Bool.and_self]
        · rw [List.cons_append, leadingBlanks_append_skipBlanks]
      · cases skipped

/-- What is skipped in front of an attempt is blank. -/
theorem eq_append_of_skipMostBlanks? {β : Type} {attempt : Text → Option β} {text : Text}
    {answer : β} (found : skipMostBlanks? attempt text = some answer) :
    ∃ blanks rest, isBlank blanks = true ∧ text = blanks ++ rest ∧
      attempt rest = some answer := by
  rcases largest?_eq_some_iff.mp found with ⟨count, within, succeeded, _⟩
  refine ⟨text.take count, text.drop count, ?_, (List.take_append_drop count text).symm,
    succeeded⟩
  have leading : text.take count = (leadingBlanks text).take count := by
    have split := leadingBlanks_append_skipBlanks text
    rw [← List.take_append_of_le_length within, split]
  rw [leading]
  apply List.all_eq_true.mpr
  intro unit member
  exact List.all_eq_true.mp (isBlank_leadingBlanks text) unit (List.mem_of_mem_take member)

end Text

namespace NegatedMembership

theorem eq_append_of_operand? {text operand rest : Text}
    (found : operand? text = some (operand, rest)) :
    operand ≠ [] ∧ (∀ unit ∈ operand, endsOperand unit = false) ∧ text = operand ++ rest := by
  unfold operand? at found
  split at found
  · cases found
  · next unit units taken =>
    have pair := Prod.mk.inj (Option.some.inj found)
    rcases pair with ⟨rfl, rfl⟩
    refine ⟨List.cons_ne_nil _ _, ?_, ?_⟩
    · intro member inOperand
      rw [← taken] at inOperand
      have allOpen := List.all_eq_true.mp
        (List.all_takeWhile (p := fun unit => !endsOperand unit) (l := text)) member inOperand
      simpa using allOpen
    · rw [← taken, List.takeWhile_append_dropWhile]

theorem eq_append_of_quotedText? {text content rest : Text} {quote : CodeUnit}
    (found : quotedText? text = some (quote, content, rest)) :
    (quote = CodeUnit.doubleQuote ∨ quote = CodeUnit.singleQuote) ∧ quote ∉ content ∧
      text = quote :: (content ++ quote :: rest) := by
  cases text with
  | nil => cases found
  | cons unit text =>
      rw [quotedText?] at found
      split at found
      · next isMark =>
        rcases Option.map_eq_some_iff.mp found with ⟨⟨read, behind⟩, upTo, same⟩
        have parts : unit = quote ∧ read = content ∧ behind = rest := by
          simpa using same
        rcases parts with ⟨rfl, rfl, rfl⟩
        rcases Text.upTo?_eq_some_iff.mp upTo with ⟨absent, split⟩
        exact ⟨isMark, absent, congrArg (List.cons unit) split⟩
      · cases found

/-- The blank space in front of `not`, of `in` and of the operand. -/
structure Spacing where
  beforeNot : Text
  beforeIn : Text
  beforeOperand : Text

namespace Membership

/-- The membership test written out with the given blank space. -/
def spelling (membership : Membership) (spacing : Spacing) : Text :=
  membership.quote :: (membership.content ++ membership.quote ::
    (spacing.beforeNot ++ ("not" ++ (spacing.beforeIn ++ ("in" ++
      (spacing.beforeOperand ++ membership.operand))))))

/-- The parts are such as the pattern reads them; only `in` needs space in front of it. -/
structure IsSpelled (membership : Membership) (spacing : Spacing) : Prop where
  quote_isMark : membership.quote = CodeUnit.doubleQuote ∨
    membership.quote = CodeUnit.singleQuote
  quote_not_mem : membership.quote ∉ membership.content
  beforeNot_blank : Text.isBlank spacing.beforeNot = true
  beforeIn_blank : Text.isBlank spacing.beforeIn = true
  beforeIn_ne_nil : spacing.beforeIn ≠ []
  beforeOperand_blank : Text.isBlank spacing.beforeOperand = true
  operand_ne_nil : membership.operand ≠ []
  operand_open : ∀ unit ∈ membership.operand, endsOperand unit = false

end Membership

/-- Every match is a spelling of what it captures. -/
theorem eq_spelling_of_expression {before ahead rest : Text} {membership : Membership}
    (found : expression before ahead = some (membership, rest)) :
    ∃ spacing, membership.IsSpelled spacing ∧
      ahead = membership.spelling spacing ++ rest := by
  simp only [expression, Option.bind_eq_bind, Option.bind_eq_some_iff] at found
  rcases found with
      ⟨⟨quote, content, afterQuoted⟩, quoted, afterNot, notRead, afterBlanks, blanksRead,
        afterIn, inRead, ⟨operand, behind⟩, operandRead, same⟩
  have parts : { quote, content, operand } = membership ∧ behind = rest := by
    simpa using same
  rcases parts with ⟨rfl, rfl⟩
  rcases eq_append_of_quotedText? quoted with ⟨isMark, absent, quotedSplit⟩
  have notSplit := Text.after?_eq_some_iff.mp notRead
  rcases Text.eq_append_of_skipSomeBlanks? blanksRead with
      ⟨beforeIn, beforeInNonempty, beforeInBlank, blanksSplit⟩
  have inSplit := Text.after?_eq_some_iff.mp inRead
  rcases Text.eq_append_of_skipMostBlanks? operandRead with
      ⟨beforeOperand, fromOperand, beforeOperandBlank, operandSplit, operandFound⟩
  rcases eq_append_of_operand? operandFound with ⟨operandNonempty, operandOpen, restSplit⟩
  refine ⟨{ beforeNot := Text.leadingBlanks afterQuoted, beforeIn, beforeOperand },
    ⟨isMark, absent, Text.isBlank_leadingBlanks afterQuoted, beforeInBlank, beforeInNonempty,
      beforeOperandBlank, operandNonempty, operandOpen⟩, ?_⟩
  have gapSplit := Text.leadingBlanks_append_skipBlanks afterQuoted
  rw [notSplit, blanksSplit, inSplit, operandSplit, restSplit] at gapSplit
  rw [quotedSplit]
  simp only [Membership.spelling, List.cons_append, List.append_assoc, gapSplit]

/-! ## Lengths -/

theorem length_spelling (membership : Membership) (spacing : Spacing) :
    (membership.spelling spacing).length =
      membership.content.length + membership.operand.length + spacing.beforeNot.length +
        spacing.beforeIn.length + spacing.beforeOperand.length + 7 := by
  have lengthNot : (Text.ofString "not").length = 3 := rfl
  have lengthIn : (Text.ofString "in").length = 2 := rfl
  simp only [Membership.spelling, List.length_cons, List.length_append, lengthNot, lengthIn]
  omega

theorem length_negated (membership : Membership) :
    membership.negated.length =
      membership.element.length + membership.operand.length + 5 := by
  have lengthMark : (Text.ofString "!").length = 1 := rfl
  have lengthIn : (Text.ofString " in ").length = 4 := rfl
  simp only [Membership.negated, List.length_append, lengthMark, lengthIn]
  omega

theorem length_element_le (membership : Membership) :
    membership.element.length ≤ membership.content.length := by
  unfold Membership.element
  split
  · exact Nat.le_refl _
  · exact Nat.zero_le _

/-- The two quotes, the word `not` and a blank unit go; one exclamation mark and
two blank units come. -/
theorem length_negated_add_three_le {before matched rest : Text} {membership : Membership}
    (found : expression before (matched ++ rest) = some (membership, rest)) :
    membership.negated.length + 3 ≤ matched.length := by
  rcases eq_spelling_of_expression found with ⟨spacing, spelled, split⟩
  have matchedSpelling : matched = membership.spelling spacing := List.append_cancel_right split
  have separated := List.length_pos_iff.mpr spelled.beforeIn_ne_nil
  have kept := length_element_le membership
  rw [matchedSpelling, length_spelling, length_negated]
  omega

/-- Matches take the next units, the opening quote among them. -/
theorem expression_advances : expression.Advances := by
  intro before ahead membership rest found
  rcases eq_spelling_of_expression found with ⟨spacing, _, split⟩
  exact ⟨membership.spelling spacing, List.cons_ne_nil _ _, split⟩

/-! ## What is found is changed -/

/-- A negated test starts with an exclamation mark, and a match with a quotation mark. -/
theorem changes_of_mem_occurrences {source : Text} {occurrence : Occurrence Membership}
    (listed : occurrence ∈ expression.occurrences source) : changes occurrence = true := by
  rcases Pattern.eq_append_of_mem_scanFrom expression_advances listed with ⟨_, rest, _, _, read⟩
  rcases eq_spelling_of_expression read with ⟨spacing, spelled, split⟩
  have matchedSpelling : occurrence.matched = occurrence.capture.spelling spacing :=
    List.append_cancel_right split
  rw [changes, bne_iff_ne, matchedSpelling]
  intro same
  have sameMark := (List.cons_eq_cons.mp same).1
  rcases spelled.quote_isMark with double | single
  · rw [double] at sameMark
    exact absurd sameMark (by decide)
  · rw [single] at sameMark
    exact absurd sameMark (by decide)

/-- No match is left as it was, so a plain `not in` and a match make a finding. -/
theorem findings_eq (source : Text) :
    findings source =
      if Text.holds "not in" source then
        match expression.occurrences source with
        | [] => []
        | first :: others =>
            [Rule.negatedMembership.finding
              "Auto-fixed 'not in' to '!(... in ...)' – see fixed code below"
              (some (source.positionAt first.start))
              ((first :: others).map (edit source))]
      else
        [] := by
  unfold findings
  cases found : expression.occurrences source with
  | nil => rfl
  | cons first others =>
      have firstChanges : changes first = true :=
        changes_of_mem_occurrences (found ▸ List.mem_cons_self)
      have someChanges : (first :: others).any changes = true :=
        List.any_eq_true.mpr ⟨first, List.mem_cons_self, firstChanges⟩
      simp only [someChanges, if_true]

end NegatedMembership
end JuliaLint

import JuliaLint.Proofs.Names
import JuliaLint.Proofs.RewriteGrammar
import JuliaLint.Proofs.Rewriting

namespace JuliaLint

/-!
# Names that start with `in`

The rule on negated membership tests reads the word `not`, blank space and the
two letters `in`, and takes what follows for the operand.  It does not ask
whether the letters are a word.  If a longer name stands there, such as `index`,
the rest of the name becomes the start of the operand, and the negated test puts
a space between the two.

So the letters are a whole word in every edit of a script exactly if the name
behind `not` is `in` itself at each of the leftmost tests.  Where it is longer,
the edit parts it, and the repaired script holds the parts.
-/

/-- A substitution writes the rendering of every occurrence. -/
theorem Pattern.exists_substituteFrom_around {α : Type} {pattern : Pattern α}
    (advances : pattern.Advances) (render : α → Text) (before ahead : Text)
    {occurrence : Occurrence α} (listed : occurrence ∈ scanFrom pattern before 0 ahead) :
    ∃ front back, substituteFrom pattern render before 0 ahead =
      front ++ (render occurrence.capture ++ back) := by
  induction before, ahead using walk_induction advances with
  | finished before => cases listed
  | refused before unit ahead outcome ih =>
      rw [scanFrom_of_refused outcome] at listed
      rcases ih listed with ⟨front, back, split⟩
      refine ⟨unit :: front, back, ?_⟩
      rw [substituteFrom_of_refused render outcome, split, List.cons_append]
  | accepted before matched capture rest nonempty outcome ih =>
      rw [scanFrom_of_accepted nonempty outcome] at listed
      rw [substituteFrom_of_accepted render nonempty outcome]
      rcases List.mem_cons.mp listed with rfl | later
      · exact ⟨[], _, rfl⟩
      · rcases ih later with ⟨front, back, split⟩
        refine ⟨render capture ++ front, back, ?_⟩
        rw [split, List.append_assoc]

namespace NegatedMembership

/-! ## What stands behind `not` -/

/-- In the test that an edit replaces, no identifier character follows the letters `in`. -/
def ReadsWholeIn (source : Text) (edit : Edit) : Prop :=
  ∃ quote content behind,
    ReadsWords (source.drop edit.start.offset) quote content behind ∧
    ∀ character : Char, isIdentifierCodePoint character.toNat = true →
      ¬Text.ofCodePoint character.toNat <+: behind

/-- Behind a quoted text at the place and the word `not` stands the name, as a whole. -/
def NameBehindNot (source : Text) (place : Nat) (name : Text) : Prop :=
  ∃ (quote : CodeUnit) (content gap space rest : Text),
    (quote = CodeUnit.doubleQuote ∨ quote = CodeUnit.singleQuote) ∧ quote ∉ content ∧
    Text.isBlank gap = true ∧ Text.isBlank space = true ∧ space ≠ [] ∧
    Text.IsName name ∧ Text.startsInName rest = false ∧
    source.drop place =
      quote :: (content ++ quote :: (gap ++ ("not" ++ (space ++ (name ++ rest)))))

/-- A test runs from one place of the source to the other. -/
def SpansTest (source : Text) (start stop : Nat) : Prop :=
  ∃ quote content behind operand,
    ReadsWords (source.drop start) quote content behind ∧
    OperandOf behind operand (source.drop stop) ∧ stop ≤ source.length

theorem ReadsWords.afterWords {text content behind : Text} {quote : CodeUnit}
    (words : ReadsWords text quote content behind) :
    ((quotedText? text).bind fun quoted => afterWords? quoted.2.2) = some behind := by
  rcases words with ⟨isMark, absent, gap, space, gapBlank, spaceBlank, someSpace, rfl⟩
  rw [quotedText?_of_mark (isQuote_iff.mpr isMark) absent, Option.bind_some]
  exact afterWords?_eq_some_iff.mpr ⟨gap, space, gapBlank, spaceBlank, someSpace, rfl⟩

/-- Words are read in one way only. -/
theorem ReadsWords.behind_unique {text content otherContent behind otherBehind : Text}
    {quote otherQuote : CodeUnit} (one : ReadsWords text quote content behind)
    (other : ReadsWords text otherQuote otherContent otherBehind) : behind = otherBehind :=
  Option.some.inj (one.afterWords.symm.trans other.afterWords)

theorem readsWholeIn_iff_of_read {source content behind : Text} {edit : Edit} {quote : CodeUnit}
    (words : ReadsWords (source.drop edit.start.offset) quote content behind) :
    ReadsWholeIn source edit ↔ Text.startsInName behind = false := by
  rw [← Bool.not_eq_true, Text.startsInName_iff]
  constructor
  · rintro ⟨_, _, otherBehind, otherWords, apart⟩ ⟨character, rest, isIdentifier, split⟩
    obtain rfl : behind = otherBehind := words.behind_unique otherWords
    exact apart character isIdentifier ⟨rest, split.symm⟩
  · intro stops
    refine ⟨quote, content, behind, words, ?_⟩
    rintro character isIdentifier ⟨rest, split⟩
    exact stops ⟨character, rest, isIdentifier, split.symm⟩

theorem isName_in_append {characters : List Char}
    (identifiers : ∀ character ∈ characters, isIdentifierCodePoint character.toNat = true) :
    Text.IsName ("in" ++ Text.ofChars characters) := by
  refine ⟨'i' :: 'n' :: characters, List.cons_ne_nil _ _, ?_, rfl⟩
  have letters : isIdentifierCodePoint 'i'.toNat = true ∧
      isIdentifierCodePoint 'n'.toNat = true := by
    decide
  exact List.forall_mem_cons.mpr ⟨letters.1, List.forall_mem_cons.mpr ⟨letters.2, identifiers⟩⟩

/-- The letters are a whole word exactly if they are the name behind `not`. -/
theorem readsWholeIn_iff_nameBehindNot {source : Text} {edit : Edit} :
    ReadsWholeIn source edit ↔ NameBehindNot source edit.start.offset "in" := by
  constructor
  · rintro ⟨quote, content, behind, words, apart⟩
    have stops := (readsWholeIn_iff_of_read words).mp ⟨quote, content, behind, words, apart⟩
    rcases words with ⟨isMark, absent, gap, space, gapBlank, spaceBlank, someSpace, split⟩
    exact ⟨quote, content, gap, space, behind, isMark, absent, gapBlank, spaceBlank, someSpace,
      isName_in_append (List.forall_mem_nil _), stops, split⟩
  · rintro ⟨quote, content, gap, space, rest, isMark, absent, gapBlank, spaceBlank, someSpace, _,
      stops, split⟩
    have words : ReadsWords (source.drop edit.start.offset) quote content rest :=
      ⟨isMark, absent, gap, space, gapBlank, spaceBlank, someSpace, split⟩
    exact (readsWholeIn_iff_of_read words).mpr stops

/-! ## The operand of an edit -/

/-- No unit of a name ends an operand. -/
theorem endsOperand_of_mem_name {name : Text} (isName : Text.IsName name) :
    ∀ unit ∈ name, endsOperand unit = false := by
  have onEnds : [CodeUnit.semicolon, CodeUnit.comma, CodeUnit.closingParenthesis,
      CodeUnit.lineFeed].all
        (fun unit => !unit.isSurrogate && !isIdentifierCodePoint unit.toNat) = true := by
    decide
  rcases isName with ⟨characters, _, identifiers, rfl⟩
  intro unit member
  rcases List.mem_flatMap.mp member with ⟨character, listed, inCharacter⟩
  apply Bool.eq_false_iff.mpr
  intro ends
  have isEnd : unit ∈ [CodeUnit.semicolon, CodeUnit.comma, CodeUnit.closingParenthesis,
      CodeUnit.lineFeed] := by
    simpa [endsOperand, or_assoc] using ends
  obtain ⟨plain, noIdentifier⟩ :
      unit.isSurrogate = false ∧ isIdentifierCodePoint unit.toNat = false := by
    simpa only [Bool.and_eq_true, Bool.not_eq_true'] using List.all_eq_true.mp onEnds unit isEnd
  rcases Text.ofCodePoint_cases character with
    ⟨single, units, unitNat, _⟩ | ⟨lead, trail, units, isLead, isTrail, _⟩
  · rw [units, List.mem_singleton] at inCharacter
    rw [inCharacter, unitNat, identifiers character listed] at noIdentifier
    cases noIdentifier
  · rw [units] at inCharacter
    rcases List.mem_cons.mp inCharacter with rfl | isSecond
    · rw [CodeUnit.isSurrogate, isLead] at plain
      cases plain
    · rw [List.mem_singleton.mp isSecond, CodeUnit.isSurrogate, isTrail, Bool.or_true] at plain
      cases plain

/-- An operand that follows the letters `in` directly starts with the rest of the name. -/
theorem OperandOf.exists_eq_append {name rest operand stop : Text} (isName : Text.IsName name)
    (read : OperandOf (name ++ rest) operand stop) : ∃ back, operand = name ++ back := by
  have starts := Text.startsInName_of_isName isName rest
  have noBlank : Text.leadingBlanks (name ++ rest) = [] := by
    cases whole : name ++ rest with
    | nil => rfl
    | cons unit others =>
        cases blank : unit.isBlank with
        | true =>
            rw [whole, Text.startsInName_cons_of_isBlank blank] at starts
            cases starts
        | false => exact List.takeWhile_cons_of_neg (Bool.eq_false_iff.mp blank)
  have nothingSkipped := Text.leadingBlanks_append_skipBlanks (name ++ rest)
  rw [noBlank, List.nil_append] at nothingSkipped
  cases read with
  | word follows opens =>
      refine ⟨rest.takeWhile fun unit => !endsOperand unit, ?_⟩
      rw [nothingSkipped]
      apply List.takeWhile_append_of_pos
      intro unit member
      rw [endsOperand_of_mem_name isName unit member]
      rfl
  | space _ blanks _ _ =>
      rw [noBlank] at blanks
      cases List.nil_eq_append_iff.mp blanks |>.2

/-- An edit leaves the name behind `not` whole if it is `in`, and parts it otherwise. -/
theorem Rewrites.exists_name {source : Text} {edit : Edit} (rewrites : Rewrites source edit) :
    ∃ more kept back : Text,
      NameBehindNot source edit.start.offset ("in" ++ more) ∧
      (ReadsWholeIn source edit ↔ more = []) ∧
      edit.replacement = "!" ++ kept ++ " in " ++ (more ++ back) := by
  rcases rewrites.read with ⟨membership, read, _, _, edited⟩
  have replaced : edit.replacement = membership.negated := by
    rw [edited]
  rcases expression_eq_some_iff.mp read with ⟨behind, words, operandRead⟩
  rcases Text.exists_eq_append_skipName behind with ⟨characters, identifiers, split⟩
  have stops := Text.startsInName_skipName behind
  generalize Text.skipName behind = rest at split stops
  subst split
  have whole := readsWholeIn_iff_of_read words
  have named : NameBehindNot source edit.start.offset ("in" ++ Text.ofChars characters) := by
    rcases words with ⟨isMark, absent, gap, space, gapBlank, spaceBlank, someSpace, sourceSplit⟩
    refine ⟨_, _, gap, space, rest, isMark, absent, gapBlank, spaceBlank, someSpace,
      isName_in_append identifiers, stops, ?_⟩
    rw [sourceSplit, List.append_assoc]
  cases characters with
  | nil =>
      refine ⟨[], membership.element, membership.operand, named, ?_, replaced⟩
      exact iff_of_true (whole.mpr stops) rfl
  | cons character characters =>
      have isName : Text.IsName (Text.ofChars (character :: characters)) :=
        ⟨_, List.cons_ne_nil _ _, identifiers, rfl⟩
      have goesOn := Text.startsInName_of_isName isName rest
      rcases operandRead.exists_eq_append isName with ⟨back, operand⟩
      refine ⟨_, membership.element, back, named, iff_of_false ?_ ?_, ?_⟩
      · rw [whole, goesOn]
        exact Bool.noConfusion
      · intro nothing
        rw [nothing, List.nil_append, stops] at goesOn
        cases goesOn
      · rw [replaced, Membership.negated, operand]

/-! ## The edits of a script -/

theorem edits_findings (source : Text) :
    (findings source).flatMap Finding.edits =
      if Text.holds "not in" source = true then
        (expression.occurrences source).map (edit source)
      else
        [] := by
  rw [findings_eq]
  split
  · cases expression.occurrences source with
    | nil => rfl
    | cons first others => exact List.append_nil _
  · rfl

/-- A test ends at one place only. -/
theorem spansTest_unique (source : Text) (start first second : Nat)
    (one : SpansTest source start first) (other : SpansTest source start second) :
    first = second := by
  rcases one with ⟨quote, content, behind, operand, words, read, within⟩
  rcases other with ⟨otherQuote, otherContent, otherBehind, otherOperand, otherWords, otherRead,
    otherWithin⟩
  obtain rfl : behind = otherBehind := words.behind_unique otherWords
  have found := skipMostBlanks?_of_operandOf read
  rw [skipMostBlanks?_of_operandOf otherRead] at found
  have lengths := congrArg List.length (Prod.mk.inj (Option.some.inj found)).2
  rw [List.length_drop, List.length_drop] at lengths
  omega

theorem leftmostFrom_tests (source : Text) :
    Pattern.LeftmostFrom (BeginsTest source) (SpansTest source) 0
      ((expression.occurrences source).map fun occurrence =>
        (occurrence.start, occurrence.stop)) := by
  apply Pattern.leftmostFrom_occurrences expression_advances
  · exact fun place => beginsTest_iff _
  · intro start stop membership within read
    rcases expression_eq_some_iff.mp read with ⟨behind, words, operandRead⟩
    exact ⟨_, _, behind, _, words, operandRead, within⟩

/--
When the letters `in` that an edit reads are a whole word.  There is one list of
leftmost tests in a source, and the letters are a whole word in every edit of the
rule exactly if there are no edits or the name behind `not` is `in` at each of
these tests.  In general the name behind `not` is `in` and some more: the
replacement has a space between the two, and if the script is repaired it holds
this replacement.
-/
theorem reads_whole_in_iff_name_is_in (source : Text) (config : Config) :
    ∃ spans,
      Pattern.LeftmostFrom (BeginsTest source) (SpansTest source) 0 spans ∧
      (∀ others, Pattern.LeftmostFrom (BeginsTest source) (SpansTest source) 0 others →
        others = spans) ∧
      ((∀ edit ∈ (Rule.negatedMembership.findings source).flatMap Finding.edits,
          ReadsWholeIn source edit) ↔
        (Text.holds "not in" source = true →
          ∀ span ∈ spans, NameBehindNot source span.1 "in")) ∧
      ∀ edit ∈ (Rule.negatedMembership.findings source).flatMap Finding.edits,
        (∃ more kept back : Text,
          NameBehindNot source edit.start.offset ("in" ++ more) ∧
          (ReadsWholeIn source edit ↔ more = []) ∧
          edit.replacement = "!" ++ kept ++ " in " ++ (more ++ back)) ∧
        ((lint source config).isRepaired = true →
          ∃ front back, (lint source config).script = front ++ (edit.replacement ++ back)) := by
  have leftmost := leftmostFrom_tests source
  refine ⟨_, leftmost, fun others other => other.unique (spansTest_unique source) leftmost,
    ?_, ?_⟩
  · rw [Rule.findings, edits_findings]
    split
    · next plain =>
      simp only [plain, true_imp_iff, List.forall_mem_map, readsWholeIn_iff_nameBehindNot]
      refine forall₂_congr fun occurrence listed => ?_
      rw [(offsets_edit listed).1]
    · next absent => exact iff_of_true (List.forall_mem_nil _) fun plain => absurd plain absent
  · intro edit member
    rw [Rule.findings, edits_findings] at member
    split at member
    · rcases List.mem_map.mp member with ⟨occurrence, listed, rfl⟩
      refine ⟨((followGrammar_occurrences source).rewrites _ member).exists_name, ?_⟩
      intro repaired
      rw [script_lint_of_repaired repaired,
        repairAll_of_findings (isRepaired_lint_iff.mp repaired).2]
      exact Pattern.exists_substituteFrom_around expression_advances Membership.negated [] source
        listed
    · cases member

/-- The word `in` in front of a name that starts with the same letters. -/
theorem whole_in_before_index :
    let source : Text := "\"s\" not in index"
    (lint source Config.empty).isRepaired = true ∧
      ∀ edit ∈ (Rule.negatedMembership.findings source).flatMap Finding.edits,
        ReadsWholeIn source edit ∧
          ∃ front back,
            (lint source Config.empty).script = front ++ (edit.replacement ++ back) := by
  intro source
  have repaired : (lint source Config.empty).isRepaired = true := by decide
  have named : NameBehindNot source 0 "in" :=
    ⟨CodeUnit.doubleQuote, "s", " ", " ", " index", Or.inl rfl, by decide, rfl, rfl, by decide,
      isName_in_append (List.forall_mem_nil _), by decide, rfl⟩
  rcases reads_whole_in_iff_name_is_in source Config.empty with
    ⟨spans, _, unique, whole_iff, perEdit⟩
  have onlySpan : spans = [(0, 16)] := by
    rw [← unique _ (leftmostFrom_tests source)]
    decide
  have whole := whole_iff.mpr fun _ => by
    rw [onlySpan]
    exact List.forall_mem_singleton.mpr named
  exact ⟨repaired, fun edit member => ⟨whole edit member, (perEdit edit member).2 repaired⟩⟩

/-- A name that starts with `in` behind `not`: the repair parts it. -/
theorem repair_parts_index :
    let source : Text := "\"s\" not index"
    (∃ edit ∈ (Rule.negatedMembership.findings source).flatMap Finding.edits,
      ¬ReadsWholeIn source edit) ∧
    (lint source Config.empty).isRepaired = true ∧
    (lint source Config.empty).script = "!s in dex" := by
  intro source
  let test : Occurrence Membership :=
    { start := 0
      matched := source
      capture := { quote := CodeUnit.doubleQuote, content := "s", operand := "dex" } }
  have words : ReadsWords (source.drop (edit source test).start.offset) CodeUnit.doubleQuote "s"
      "dex" :=
    ⟨Or.inl rfl, by decide, " ", " ", rfl, rfl, by decide, rfl⟩
  have onlyTest : expression.occurrences source = [test] := by decide
  have repaired : (lint source Config.empty).isRepaired = true := by decide
  refine ⟨⟨edit source test, ?_, ?_⟩, repaired, ?_⟩
  · rw [Rule.findings, edits_findings, if_pos (by decide), onlyTest]
    exact List.mem_singleton_self _
  · rw [readsWholeIn_iff_of_read words]
    decide
  · rw [script_lint_of_repaired repaired,
      repairAll_of_findings (isRepaired_lint_iff.mp repaired).2]
    decide

end NegatedMembership
end JuliaLint

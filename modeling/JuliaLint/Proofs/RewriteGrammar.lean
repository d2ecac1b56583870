import JuliaLint.Proofs.MembershipReading
import JuliaLint.Rule.Battery

namespace JuliaLint
namespace NegatedMembership

/-!
# The grammar of the rewrite

The rule that edits a script is defined by a pattern that gives back blank space
until an operand is left, and by a scan that resumes behind each match.  Here
both are described without either.

From a quotation mark on, the grammar reads the quoted text and the words `not`
and `in`.  The operand then starts at the first unit that is not blank, unless
that unit would end an operand.  In this case it is a single blank unit, the
last one that is not a line feed.  The edits of a script are the only list in
ascending order in which every place outside of an edit starts one exactly if a
test begins there.
-/

/-! ## Tests, read without giving anything back -/

/-- The text starts with a quoted text and the words `not` and `in`. -/
def ReadsWords (text : Text) (quote : CodeUnit) (content behind : Text) : Prop :=
  (quote = CodeUnit.doubleQuote ∨ quote = CodeUnit.singleQuote) ∧ quote ∉ content ∧
    ∃ gap space : Text, Text.isBlank gap = true ∧ Text.isBlank space = true ∧ space ≠ [] ∧
      text = quote :: (content ++ quote :: (gap ++ ("not" ++ (space ++ ("in" ++ behind)))))

/-- Whether an operand follows `in`: a unit that is neither blank nor ends an
operand, or else blank space that is not all line feeds. -/
def HasOperand (behind : Text) : Prop :=
  (∃ next, (Text.skipBlanks behind).head? = some next ∧ endsOperand next = false) ∨
    ∃ unit ∈ Text.leadingBlanks behind, unit ≠ CodeUnit.lineFeed

/-- The text is empty or starts with a unit that ends an operand. -/
def Closes (text : Text) : Prop :=
  ∀ next, text.head? = some next → endsOperand next = true

/-- The operand in the text behind `in`, and the rest of the text. -/
inductive OperandOf (behind : Text) : (operand rest : Text) → Prop where
  /-- The operand is what stands behind the blank space. -/
  | word {next : CodeUnit} (follows : (Text.skipBlanks behind).head? = some next)
      (opens : endsOperand next = false) :
      OperandOf behind
        ((Text.skipBlanks behind).takeWhile fun unit => !endsOperand unit)
        ((Text.skipBlanks behind).dropWhile fun unit => !endsOperand unit)
  /-- Nothing stands there, and the operand is a unit of the blank space. -/
  | space {front feeds : Text} {unit : CodeUnit}
      (closes : Closes (Text.skipBlanks behind))
      (blanks : Text.leadingBlanks behind = front ++ unit :: feeds)
      (inLine : unit ≠ CodeUnit.lineFeed)
      (feedsOnly : ∀ feed ∈ feeds, feed = CodeUnit.lineFeed) :
      OperandOf behind [unit] (feeds ++ Text.skipBlanks behind)

def BeginsTest (source : Text) (place : Nat) : Prop :=
  ∃ quote content behind,
    ReadsWords (source.drop place) quote content behind ∧ HasOperand behind

/-! ## The words -/

theorem afterWords?_eq_some_iff {text behind : Text} :
    afterWords? text = some behind ↔
      ∃ gap space : Text, Text.isBlank gap = true ∧ Text.isBlank space = true ∧ space ≠ [] ∧
        text = gap ++ ("not" ++ (space ++ ("in" ++ behind))) := by
  constructor
  · intro read
    rcases Option.bind_eq_some_iff.mp read with ⟨behindNot, notRead, laterRead⟩
    rcases Option.bind_eq_some_iff.mp laterRead with ⟨behindSpace, spaceRead, inRead⟩
    rcases Text.eq_append_of_skipSomeBlanks? spaceRead with ⟨space, someSpace, blank, split⟩
    refine ⟨Text.leadingBlanks text, space, Text.isBlank_leadingBlanks text, blank, someSpace, ?_⟩
    rw [← Text.after?_eq_some_iff.mp inRead, ← split, ← Text.after?_eq_some_iff.mp notRead,
      Text.leadingBlanks_append_skipBlanks]
  · rintro ⟨gap, space, gapBlank, spaceBlank, someSpace, rfl⟩
    have skipped : Text.skipBlanks (gap ++ ("not" ++ (space ++ ("in" ++ behind)))) =
        "not" ++ (space ++ ("in" ++ behind)) :=
      Text.skipBlanks_append_of_blank gapBlank _
    have spaceRead : Text.skipSomeBlanks? (space ++ ("in" ++ behind)) = some ("in" ++ behind) := by
      cases space with
      | nil => exact absurd rfl someSpace
      | cons unit space =>
          have blanks : unit.isBlank = true ∧ Text.isBlank space = true := by
            simpa [Text.isBlank] using spaceBlank
          rw [List.cons_append, Text.skipSomeBlanks?, if_pos blanks.1,
            Text.skipBlanks_append_of_blank blanks.2]
          rfl
    rw [afterWords?, skipped, Text.after?_eq_some_iff.mpr rfl, Option.bind_some, afterIn?,
      spaceRead, Option.bind_some, Text.after?_eq_some_iff.mpr rfl]

/-! ## The operand -/

/-- A blank unit ends an operand only if it is a line feed. -/
theorem endsOperand_of_isBlank {unit : CodeUnit} (blank : unit.isBlank = true) :
    endsOperand unit = (unit == CodeUnit.lineFeed) := by
  have member : unit ∈ CodeUnit.blanks := of_decide_eq_true blank
  have onBlanks : CodeUnit.blanks.all
      (fun unit => endsOperand unit == (unit == CodeUnit.lineFeed)) = true := by
    decide
  simpa using List.all_eq_true.mp onBlanks unit member

theorem offersOperand_iff {behind : Text} :
    offersOperand behind = true ↔ HasOperand behind := by
  induction behind with
  | nil => simp [offersOperand, HasOperand, Text.skipBlanks, Text.leadingBlanks]
  | cons unit behind ih =>
      rw [offersOperand, Bool.or_eq_true, Bool.and_eq_true, ih]
      by_cases blank : unit.isBlank = true
      · have skipped : Text.skipBlanks (unit :: behind) = Text.skipBlanks behind := by
          simp [Text.skipBlanks, blank]
        have leading : Text.leadingBlanks (unit :: behind) =
            unit :: Text.leadingBlanks behind := by
          simp [Text.leadingBlanks, blank]
        have opens : (!endsOperand unit) = true ↔ unit ≠ CodeUnit.lineFeed := by
          simp [endsOperand_of_isBlank blank]
        have someUnit : (∃ other ∈ unit :: Text.leadingBlanks behind, other ≠ CodeUnit.lineFeed) ↔
            unit ≠ CodeUnit.lineFeed ∨
              ∃ other ∈ Text.leadingBlanks behind, other ≠ CodeUnit.lineFeed := by
          simp
        unfold HasOperand
        rw [skipped, leading, opens, someUnit, and_iff_right blank]
        exact or_left_comm
      · have skipped : Text.skipBlanks (unit :: behind) = unit :: behind := by
          simp [Text.skipBlanks, blank]
        have leading : Text.leadingBlanks (unit :: behind) = [] := by
          simp [Text.leadingBlanks, blank]
        simp [HasOperand, skipped, leading, blank]

theorem exists_operandOf_iff {behind : Text} :
    (∃ operand rest, OperandOf behind operand rest) ↔ HasOperand behind := by
  constructor
  · rintro ⟨operand, rest, read⟩
    cases read with
    | word follows opens => exact Or.inl ⟨_, follows, opens⟩
    | space _ blanks inLine _ =>
        refine Or.inr ⟨_, ?_, inLine⟩
        rw [blanks]
        exact List.mem_append_right _ List.mem_cons_self
  · intro offered
    by_cases follows : ∃ next,
        (Text.skipBlanks behind).head? = some next ∧ endsOperand next = false
    · rcases follows with ⟨next, isNext, opens⟩
      exact ⟨_, _, .word isNext opens⟩
    · have closes : Closes (Text.skipBlanks behind) := by
        intro next isNext
        cases ends : endsOperand next with
        | true => rfl
        | false => exact absurd ⟨next, isNext, ends⟩ follows
      rcases offered.resolve_left follows with ⟨unit, member, inLine⟩
      have someUnit : ((Text.leadingBlanks behind).reverse.find? fun unit =>
          unit != CodeUnit.lineFeed).isSome = true :=
        List.find?_isSome.mpr ⟨unit, List.mem_reverse.mpr member, by simpa using inLine⟩
      rcases Option.isSome_iff_exists.mp someUnit with ⟨last, isLast⟩
      rcases List.find?_eq_some_iff_append.mp isLast with
        ⟨lastInLine, feeds, front, split, feedsOnly⟩
      have blanks : Text.leadingBlanks behind = front.reverse ++ last :: feeds.reverse := by
        have reversed := congrArg List.reverse split
        simpa using reversed
      refine ⟨_, _, .space closes blanks (by simpa using lastInLine) ?_⟩
      intro feed isFeed
      simpa using feedsOnly feed (List.mem_reverse.mp isFeed)

theorem operand?_of_opens {text : Text} {next : CodeUnit} (follows : text.head? = some next)
    (opens : endsOperand next = false) :
    operand? text = some (text.takeWhile fun unit => !endsOperand unit,
      text.dropWhile fun unit => !endsOperand unit) := by
  cases text with
  | nil => cases follows
  | cons unit text =>
      cases follows
      simp [operand?, opens]

theorem operand?_of_closes {text : Text} (closes : Closes text) : operand? text = none := by
  cases text with
  | nil => rfl
  | cons unit text =>
      have ends := closes unit rfl
      simp [operand?, ends]

theorem operand?_cons_of_closes {unit : CodeUnit} {rest : Text}
    (opens : endsOperand unit = false) (closes : Closes rest) :
    operand? (unit :: rest) = some ([unit], rest) := by
  rw [operand?_of_opens rfl opens]
  cases rest with
  | nil => simp [opens]
  | cons next rest =>
      have ends := closes next rfl
      simp [opens, ends]

theorem closes_append {feeds rest : Text} (feedsOnly : ∀ feed ∈ feeds, feed = CodeUnit.lineFeed)
    (closes : Closes rest) : Closes (feeds ++ rest) := by
  cases feeds with
  | nil => exact closes
  | cons feed feeds =>
      intro next isNext
      cases isNext
      rw [feedsOnly feed List.mem_cons_self]
      rfl

/-- An operand ends where the text does or where a unit ends it. -/
theorem OperandOf.closes {behind operand rest : Text} (read : OperandOf behind operand rest) :
    Closes rest := by
  cases read with
  | word follows opens =>
      intro next isNext
      have ends := List.head?_dropWhile_not (fun unit => !endsOperand unit) (Text.skipBlanks behind)
      rw [isNext] at ends
      simpa using ends
  | space closes blanks inLine feedsOnly => exact closes_append feedsOnly closes

theorem skipMostBlanks?_of_operandOf {behind operand rest : Text}
    (read : OperandOf behind operand rest) :
    Text.skipMostBlanks? operand? behind = some (operand, rest) := by
  apply largest?_eq_some_iff.mpr
  have split := Text.leadingBlanks_append_skipBlanks behind
  cases read with
  | word follows opens =>
      refine ⟨_, Nat.le_refl _, ?_, fun larger above below => absurd above (by omega)⟩
      have dropped := congrArg (List.drop (Text.leadingBlanks behind).length) split
      rw [List.drop_left] at dropped
      rw [← dropped]
      exact operand?_of_opens follows opens
  | @space front feeds unit closes blanks inLine feedsOnly =>
      have blank : unit.isBlank = true := by
        have allBlank := Text.isBlank_leadingBlanks behind
        rw [blanks] at allBlank
        exact List.all_eq_true.mp allBlank unit (List.mem_append_right _ List.mem_cons_self)
      have opens : endsOperand unit = false := by
        simpa [endsOperand_of_isBlank blank] using inLine
      rw [blanks, List.append_assoc, List.cons_append] at split
      generalize Text.skipBlanks behind = tail at split closes ⊢
      refine ⟨front.length, ?_, ?_, ?_⟩
      · rw [blanks, List.length_append]
        omega
      · rw [← split, List.drop_left]
        exact operand?_cons_of_closes opens (closes_append feedsOnly closes)
      · intro larger above below
        -- a larger count leaves line feeds only in front of the closing unit
        rcases Nat.exists_eq_add_of_lt above with ⟨more, rfl⟩
        have within : more ≤ feeds.length := by
          rw [blanks, List.length_append, List.length_cons] at below
          omega
        have dropped : behind.drop (front.length + more + 1) = feeds.drop more ++ tail := by
          rw [← split, Nat.add_assoc, List.drop_length_add_append, List.drop_succ_cons,
            List.drop_append_of_le_length within]
        rw [dropped]
        apply operand?_of_closes
        exact closes_append (fun feed isFeed => feedsOnly feed (List.mem_of_mem_drop isFeed)) closes

/-- Giving back blank space ends where the grammar has the operand. -/
theorem skipMostBlanks?_operand?_eq_some_iff {behind operand rest : Text} :
    Text.skipMostBlanks? operand? behind = some (operand, rest) ↔
      OperandOf behind operand rest := by
  constructor
  · intro read
    have offers : offersOperand behind = true := by
      rw [← isSome_skipMostBlanks?_operand?, read]
      rfl
    rcases exists_operandOf_iff.mpr (offersOperand_iff.mp offers) with ⟨other, otherRest, grammar⟩
    have same := read.symm.trans (skipMostBlanks?_of_operandOf grammar)
    cases same
    exact grammar
  · exact skipMostBlanks?_of_operandOf

/-- A match of the pattern is a test of the grammar, and conversely. -/
theorem expression_eq_some_iff {before ahead rest : Text} {membership : Membership} :
    expression before ahead = some (membership, rest) ↔
      ∃ behind, ReadsWords ahead membership.quote membership.content behind ∧
        OperandOf behind membership.operand rest := by
  rw [expression_eq_bind]
  constructor
  · intro read
    rcases Option.bind_eq_some_iff.mp read with ⟨⟨quote, content, afterQuoted⟩, quoted, laterRead⟩
    rcases Option.bind_eq_some_iff.mp laterRead with ⟨behind, wordsRead, lastRead⟩
    rcases Option.bind_eq_some_iff.mp lastRead with ⟨⟨operand, stop⟩, operandRead, same⟩
    cases same
    rcases eq_append_of_quotedText? quoted with ⟨isMark, absent, rfl⟩
    rcases afterWords?_eq_some_iff.mp wordsRead with
      ⟨gap, space, gapBlank, spaceBlank, someSpace, wordsSplit⟩
    refine ⟨behind, ⟨isMark, absent, gap, space, gapBlank, spaceBlank, someSpace, ?_⟩,
      skipMostBlanks?_operand?_eq_some_iff.mp operandRead⟩
    rw [← wordsSplit]
  · rintro ⟨behind, ⟨isMark, absent, gap, space, gapBlank, spaceBlank, someSpace, rfl⟩, operand⟩
    have wordsRead : afterWords? (gap ++ ("not" ++ (space ++ ("in" ++ behind)))) = some behind :=
      afterWords?_eq_some_iff.mpr ⟨gap, space, gapBlank, spaceBlank, someSpace, rfl⟩
    rw [quotedText?_of_mark (isQuote_iff.mpr isMark) absent, Option.bind_some, wordsRead,
      Option.bind_some, skipMostBlanks?_operand?_eq_some_iff.mpr operand, Option.bind_some]

/-- A test begins at a place exactly if the pattern accepts there. -/
theorem beginsTest_iff {source : Text} {place : Nat} (before : Text) :
    BeginsTest source place ↔ (expression before (source.drop place)).isSome = true := by
  rw [Option.isSome_iff_exists]
  constructor
  · rintro ⟨quote, content, behind, words, offered⟩
    rcases exists_operandOf_iff.mpr offered with ⟨operand, rest, read⟩
    exact ⟨({ quote, content, operand }, rest), expression_eq_some_iff.mpr ⟨behind, words, read⟩⟩
  · rintro ⟨⟨membership, rest⟩, read⟩
    rcases expression_eq_some_iff.mp read with ⟨behind, words, operand⟩
    exact ⟨_, _, behind, words, exists_operandOf_iff.mp ⟨_, _, operand⟩⟩

theorem BeginsTest.lt_length {source : Text} {place : Nat} (begins : BeginsTest source place) :
    place < source.length := by
  rcases begins with ⟨quote, content, behind, ⟨_, _, gap, space, _, _, _, split⟩, _⟩
  have lengths := congrArg List.length split
  rw [List.length_drop, List.length_cons] at lengths
  omega

/-! ## The edits of a script -/

/-- The edit replaces a test of the source, from its opening mark to the end of
its operand, by the negated test. -/
def Rewrites (source : Text) (edit : Edit) : Prop :=
  ∃ (start stop : Nat) (quote : CodeUnit) (content behind operand : Text),
    ReadsWords (source.drop start) quote content behind ∧
    OperandOf behind operand (source.drop stop) ∧ stop ≤ source.length ∧
    edit =
      { description := "Replace 'not in' with a negated membership test"
        applicable := true
        start := source.positionAt start
        stop := source.positionAt stop
        replacement := "!" ++ (if quote = CodeUnit.doubleQuote then content else []) ++
          " in " ++ operand }

/-- The edits that the grammar asks for, from left to right. -/
structure FollowGrammar (source : Text) (edits : List Edit) : Prop where
  ascending : edits.Pairwise fun earlier later => earlier.stop.offset ≤ later.start.offset
  /-- A place that is not inside of an edit starts one exactly if a test begins there. -/
  starts_iff : ∀ place,
    (∀ edit ∈ edits, ¬(edit.start.offset < place ∧ place < edit.stop.offset)) →
      ((∃ edit ∈ edits, edit.start.offset = place) ↔ BeginsTest source place)
  rewrites : ∀ edit ∈ edits, Rewrites source edit

/-- An edit that rewrites a test is determined by its two offsets and the test. -/
theorem Rewrites.read {source : Text} {edit : Edit} (rewrites : Rewrites source edit) :
    ∃ membership : Membership,
      expression [] (source.drop edit.start.offset) =
        some (membership, source.drop edit.stop.offset) ∧
      edit.start.offset < edit.stop.offset ∧ edit.stop.offset ≤ source.length ∧
      edit =
        { description := "Replace 'not in' with a negated membership test"
          applicable := true
          start := source.positionAt edit.start.offset
          stop := source.positionAt edit.stop.offset
          replacement := membership.negated } := by
  rcases rewrites with ⟨start, stop, quote, content, behind, operand, words, read, within, rfl⟩
  have found : expression [] (source.drop start) =
      some ({ quote, content, operand }, source.drop stop) :=
    expression_eq_some_iff.mpr ⟨behind, words, read⟩
  have forward : start < stop := by
    rcases expression_advances _ _ _ _ found with ⟨matched, nonempty, split⟩
    have lengths := congrArg List.length split
    have positive := List.length_pos_iff.mpr nonempty
    rw [List.length_append, List.length_drop, List.length_drop] at lengths
    omega
  have startOffset : (source.positionAt start).offset = start :=
    Text.clamp_of_le (by omega)
  have stopOffset : (source.positionAt stop).offset = stop :=
    Text.clamp_of_le within
  refine ⟨{ quote, content, operand }, ?_⟩
  simp only [startOffset, stopOffset]
  exact ⟨found, forward, within, rfl⟩

/-- The grammar has no choice at a place. -/
theorem Rewrites.eq_of_start {source : Text} {first second : Edit}
    (firstRewrites : Rewrites source first) (secondRewrites : Rewrites source second)
    (sameStart : first.start.offset = second.start.offset) : first = second := by
  rcases firstRewrites.read with ⟨firstTest, firstRead, _, firstWithin, firstEdit⟩
  rcases secondRewrites.read with ⟨secondTest, secondRead, _, secondWithin, secondEdit⟩
  rw [sameStart, secondRead] at firstRead
  rcases Prod.mk.inj (Option.some.inj firstRead) with ⟨sameTest, sameRest⟩
  have sameStop : first.stop.offset = second.stop.offset := by
    have lengths := congrArg List.length sameRest
    rw [List.length_drop, List.length_drop] at lengths
    omega
  rw [firstEdit, secondEdit, sameStart, sameStop, sameTest]

/-! ### What the rule proposes -/

theorem offsets_edit {source : Text} {occurrence : Occurrence Membership}
    (listed : occurrence ∈ expression.occurrences source) :
    (edit source occurrence).start.offset = occurrence.start ∧
      (edit source occurrence).stop.offset = occurrence.stop := by
  have within := Pattern.scanFrom_within expression_advances [] source occurrence listed
  simp only [List.length_nil] at within
  exact ⟨Text.clamp_of_le (by omega), Text.clamp_of_le (by omega)⟩

theorem followGrammar_occurrences (source : Text) :
    FollowGrammar source ((expression.occurrences source).map (edit source)) where
  ascending := by
    apply List.pairwise_map.mpr
    refine (Pattern.scanFrom_ascending expression_advances [] source).imp_of_mem ?_
    intro earlier later earlierListed laterListed behind
    rw [(offsets_edit earlierListed).2, (offsets_edit laterListed).1]
    exact behind
  starts_iff := by
    intro place outside
    constructor
    · rintro ⟨_, member, rfl⟩
      rcases List.mem_map.mp member with ⟨occurrence, listed, rfl⟩
      rw [(offsets_edit listed).1, beginsTest_iff _,
        (Pattern.read_of_mem_occurrences expression_advances listed).2]
      rfl
    · intro begins
      have inside := begins.lt_length
      have accepts := (beginsTest_iff ((source.take place).reverse ++ [])).mp begins
      rcases Pattern.exists_mem_scanFrom_around expression_advances [] source
        (List.take_append_drop place source).symm accepts with ⟨occurrence, listed, around⟩
      have member : edit source occurrence ∈ (expression.occurrences source).map (edit source) :=
        List.mem_map_of_mem listed
      have notInside := outside _ member
      rw [(offsets_edit listed).1, (offsets_edit listed).2] at notInside
      rw [List.length_nil, List.length_take] at around
      refine ⟨_, member, ?_⟩
      rw [(offsets_edit listed).1]
      omega
  rewrites := by
    intro edit member
    rcases List.mem_map.mp member with ⟨occurrence, listed, rfl⟩
    rcases Pattern.read_of_mem_occurrences expression_advances listed with ⟨within, read⟩
    rcases expression_eq_some_iff.mp read with ⟨behind, words, operand⟩
    exact ⟨occurrence.start, occurrence.stop, _, _, behind, _, words, operand, within, rfl⟩

/-! ### No other list follows the grammar -/

theorem FollowGrammar.stop_le_start {source : Text} {edits : List Edit}
    (follows : FollowGrammar source edits) {earlier later : Edit} (earlierMember : earlier ∈ edits)
    (laterMember : later ∈ edits) (ordered : earlier.start.offset < later.start.offset) :
    earlier.stop.offset ≤ later.start.offset := by
  rcases (follows.rewrites later laterMember).read with ⟨_, _, forward, _⟩
  rcases List.append_of_mem laterMember with ⟨front, back, rfl⟩
  rcases List.pairwise_append.mp follows.ascending with ⟨_, fromLater, across⟩
  rcases List.mem_append.mp earlierMember with inFront | fromThere
  · exact across earlier inFront later List.mem_cons_self
  · rcases List.mem_cons.mp fromThere with rfl | inBack
    · omega
    · have behind := (List.pairwise_cons.mp fromLater).1 earlier inBack
      omega

/-- Two lists that follow the grammar agree on the edit at a place, once they
agree on all edits that start before it and could cover it. -/
theorem FollowGrammar.mem_of_mem {source : Text} {first second : List Edit}
    (firstFollows : FollowGrammar source first) (secondFollows : FollowGrammar source second)
    {edit : Edit} (member : edit ∈ first) : edit ∈ second := by
  induction place : edit.start.offset using Nat.strongRecOn
    generalizing first second edit with
  | ind start ih =>
      subst place
      have rewrites := firstFollows.rewrites edit member
      have begins : BeginsTest source edit.start.offset := by
        rcases rewrites.read with ⟨membership, read, _⟩
        exact (beginsTest_iff []).mpr (read ▸ rfl)
      have outside : ∀ other ∈ second,
          ¬(other.start.offset < edit.start.offset ∧
            edit.start.offset < other.stop.offset) := by
        rintro other otherMember ⟨startsBefore, stopsBehind⟩
        have inFirst : other ∈ first :=
          ih other.start.offset startsBefore secondFollows firstFollows otherMember rfl
        have apart := firstFollows.stop_le_start inFirst member startsBefore
        omega
      rcases (secondFollows.starts_iff _ outside).mpr begins with ⟨other, otherMember, sameStart⟩
      have same := (secondFollows.rewrites other otherMember).eq_of_start rewrites sameStart
      exact same ▸ otherMember

theorem FollowGrammar.nodup {source : Text} {edits : List Edit}
    (follows : FollowGrammar source edits) : edits.Nodup := by
  refine follows.ascending.imp_of_mem ?_
  rintro earlier later member _ behind rfl
  rcases (follows.rewrites earlier member).read with ⟨_, _, forward, _⟩
  omega

theorem FollowGrammar.unique {source : Text} {first second : List Edit}
    (firstFollows : FollowGrammar source first) (secondFollows : FollowGrammar source second) :
    first = second := by
  have sameEdits : first.Perm second := by
    apply (List.perm_ext_iff_of_nodup firstFollows.nodup secondFollows.nodup).mpr
    intro edit
    exact ⟨firstFollows.mem_of_mem secondFollows, secondFollows.mem_of_mem firstFollows⟩
  refine sameEdits.eq_of_pairwise ?_ firstFollows.ascending secondFollows.ascending
  intro earlier later earlierMember laterMember behind before
  rcases (firstFollows.rewrites earlier earlierMember).read with ⟨_, _, earlierForward, _⟩
  rcases (secondFollows.rewrites later laterMember).read with ⟨_, _, laterForward, _⟩
  omega

/--
The grammar of the rewrite.  For every source there is exactly one list of edits
that follows the grammar.  If the source has a plain `not in` and the list is
not empty, the rule has one finding, which carries the list and stands at its
first edit; in every other case it has none.
-/
theorem findings_follow_grammar (source : Text) :
    ∃ edits, FollowGrammar source edits ∧
      (∀ others, FollowGrammar source others → others = edits) ∧
      Rule.negatedMembership.findings source =
        if Text.holds "not in" source = true ∧ edits ≠ [] then
          [{ code := "NEGATED_MEMBERSHIP"
             category := .antiPatterns
             severity := .info
             message := "Auto-fixed 'not in' to '!(... in ...)' – see fixed code below"
             position? := edits.head?.map Edit.start
             edits }]
        else
          [] := by
  refine ⟨_, followGrammar_occurrences source,
    fun others follows => follows.unique (followGrammar_occurrences source), ?_⟩
  simp only [Rule.findings, findings_eq]
  split
  · next plain =>
    cases expression.occurrences source with
    | nil => simp
    | cons first others =>
        rw [if_pos ⟨plain, List.cons_ne_nil _ _⟩]
        rfl
  · next absent =>
    rw [if_neg fun both => absent both.1]

/-- An operand that is a space in front of a line feed, one that is a word, and
a line feed that is none. -/
theorem findings_of_three_operands :
    let source : Text := "x = \"a\" not in \n) && 'b'not\tin ys; \"c\" not in\n"
    ∃ edits, FollowGrammar source edits ∧
      edits.map (fun edit => (edit.start.offset, edit.stop.offset, edit.replacement)) =
        [(4, 15, Text.ofString "!a in  "), (21, 33, Text.ofString "! in ys")] := by
  intro source
  rcases findings_follow_grammar source with ⟨edits, follows, _, reported⟩
  refine ⟨edits, follows, ?_⟩
  split at reported
  · have proposed : (Rule.negatedMembership.findings source).flatMap Finding.edits = edits := by
      rw [reported]
      exact List.append_nil edits
    rw [← proposed]
    decide +kernel
  · exact absurd reported (by decide +kernel)

end NegatedMembership
end JuliaLint

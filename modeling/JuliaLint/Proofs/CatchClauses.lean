import Mathlib.Order.Bounds.Basic
import JuliaLint.Proofs.MatchShapes
import JuliaLint.Proofs.MembershipReading
import JuliaLint.Proofs.Names

namespace JuliaLint

/-!
# Which catch clauses are reported, and how much of them

The pattern skips all blank space behind `catch`, but gives some of it back when
the rest cannot be read.  A single blank unit that is given back stands in front
of the variable and hides an accepted form from the pattern.  So a clause is
accepted only if its form follows `catch` and one blank unit, and the match of
any other clause takes as much blank space as leaves it something to stop at.

Both facts are stated here without giving anything back.  From them follows when
a script with nothing but well-formed clauses is still reported.
-/

/-! ## The first place that stops a search -/

namespace Text

variable {stops : Text → Bool}

theorem isSome_seek?_iff {text : Text} :
    (seek? stops text).isSome = true ↔ ∃ count, stops (text.drop count) = true := by
  induction text with
  | nil =>
      rw [seek?]
      cases accepted : stops [] <;> simp [accepted]
  | cons unit text ih =>
      rw [seek?]
      split
      · next accepted => exact ⟨fun _ => ⟨0, accepted⟩, fun _ => rfl⟩
      · next refused =>
        rw [ih]
        constructor
        · rintro ⟨count, accepted⟩
          exact ⟨count + 1, accepted⟩
        · rintro ⟨count, accepted⟩
          cases count with
          | zero => exact absurd accepted refused
          | succ count => exact ⟨count, accepted⟩

/-- A search ends at the first place that is accepted. -/
theorem isLeast_of_seek? {text rest : Text} (found : seek? stops text = some rest) :
    ∃ count, IsLeast {count | stops (text.drop count) = true} count ∧
      rest = text.drop count := by
  induction text with
  | nil =>
      rw [seek?] at found
      split at found
      · next accepted =>
        cases found
        exact ⟨0, ⟨accepted, fun _ _ => Nat.zero_le _⟩, rfl⟩
      · cases found
  | cons unit text ih =>
      rw [seek?] at found
      split at found
      · next accepted =>
        cases found
        exact ⟨0, ⟨accepted, fun _ _ => Nat.zero_le _⟩, rfl⟩
      · next refused =>
        rcases ih found with ⟨count, ⟨accepted, least⟩, rest⟩
        refine ⟨count + 1, ⟨accepted, ?_⟩, rest⟩
        intro other otherAccepted
        cases other with
        | zero => exact absurd otherAccepted refused
        | succ other => exact Nat.succ_le_succ (least otherAccepted)

/-- Behind fewer than all leading blank units stands another one. -/
theorem exists_drop_eq_cons_of_lt {text : Text} {count : Nat}
    (fewer : count < (leadingBlanks text).length) :
    ∃ unit rest, unit.isBlank = true ∧ text.drop count = unit :: rest := by
  have split := leadingBlanks_append_skipBlanks text
  refine ⟨(leadingBlanks text)[count], (leadingBlanks text).drop (count + 1) ++ skipBlanks text,
    ?_, ?_⟩
  · exact List.all_eq_true.mp (isBlank_leadingBlanks text) _ (List.getElem_mem fewer)
  · conv => lhs; rw [← split]
    rw [List.drop_append_of_le_length (Nat.le_of_lt fewer), List.drop_eq_getElem_cons fewer]
    rfl

end Text

namespace CatchSyntax

/-! ## Clauses, read without giving anything back -/

/-- The text starts with a low line, or with a name and a semicolon. -/
inductive Accepted : Text → Prop where
  | lowLine (rest : Text) : Accepted (CodeUnit.underscore :: rest)
  | named {name gap : Text} (isName : Text.IsName name) (gapBlank : Text.isBlank gap = true)
      (rest : Text) : Accepted (name ++ (gap ++ CodeUnit.semicolon :: rest))

/-- A line feed or the word `end` stands at the place. -/
def StopsAt (source : Text) (place : Nat) : Prop :=
  ∃ rest : Text,
    source.drop place = CodeUnit.lineFeed :: rest ∨ source.drop place = "end" ++ rest

/--
A reported clause begins at the place: the word `catch` and one blank unit, no
accepted form right behind that unit, and somewhere from there on a place that
stops the clause.
-/
def BeginsClause (source : Text) (place : Nat) : Prop :=
  ∃ (blank : CodeUnit) (behind : Text), source.drop place = "catch" ++ blank :: behind ∧
    blank.isBlank = true ∧ ¬Accepted behind ∧ ∃ stop, place + 6 ≤ stop ∧ StopsAt source stop

/-- The number of blank units behind the word `catch` at the place. -/
def gapLength (source : Text) (place : Nat) : Nat :=
  (Text.leadingBlanks (source.drop (place + 5))).length

/-- A clause can be read behind so many of the blank units that follow its word. -/
def ReadsBehind (source : Text) (place count : Nat) : Prop :=
  count ≤ gapLength source place ∧
    (count < gapLength source place ∨
      ¬Accepted (source.drop (place + 5 + gapLength source place))) ∧
    ∃ stop, place + 5 + count ≤ stop ∧ StopsAt source stop

/--
The clause at the place reaches up to the given offset: it takes as many blank
units as it can be read behind, and then all units up to the first place that
stops it.
-/
def Reaches (source : Text) (place stop : Nat) : Prop :=
  ∃ count, IsGreatest {count | ReadsBehind source place count} count ∧
    IsLeast {stop | place + 5 + count ≤ stop ∧ StopsAt source stop} stop

theorem Reaches.unique {source : Text} {place first second : Nat}
    (reachesFirst : Reaches source place first) (reachesSecond : Reaches source place second) :
    first = second := by
  rcases reachesFirst with ⟨count, greatest, least⟩
  rcases reachesSecond with ⟨otherCount, otherGreatest, otherLeast⟩
  obtain rfl : count = otherCount := greatest.unique otherGreatest
  exact least.unique otherLeast

/-! ## Accepted forms and stops -/

theorem startsInName_gap {gap : Text} (blank : Text.isBlank gap = true) (rest : Text) :
    Text.startsInName (gap ++ CodeUnit.semicolon :: rest) = false := by
  cases gap with
  | nil =>
      rw [List.nil_append, Text.startsInName_cons_of_plain (by decide)]
      decide
  | cons unit gap => exact Text.startsInName_cons_of_isBlank (Bool.and_eq_true_iff.mp blank).1 _

/-- Reading a name and then a semicolon succeeds exactly if they stand there. -/
theorem reads_named_iff {text : Text} :
    Text.startsInName text = true ∧
        (Text.skipBlanks (Text.skipName text)).head? = some CodeUnit.semicolon ↔
      ∃ name gap rest : Text, Text.IsName name ∧ Text.isBlank gap = true ∧
        text = name ++ (gap ++ CodeUnit.semicolon :: rest) := by
  constructor
  · rintro ⟨starts, semicolon⟩
    rcases Text.exists_name_of_startsInName starts with ⟨name, isName, split⟩
    rcases List.head?_eq_some_iff.mp semicolon with ⟨rest, behindGap⟩
    refine ⟨name, Text.leadingBlanks (Text.skipName text), rest, isName,
      Text.isBlank_leadingBlanks _, ?_⟩
    rw [← behindGap, Text.leadingBlanks_append_skipBlanks, ← split]
  · rintro ⟨name, gap, rest, isName, gapBlank, rfl⟩
    refine ⟨Text.startsInName_of_isName isName _, ?_⟩
    rw [Text.skipName_of_isName isName (startsInName_gap gapBlank rest),
      Text.skipBlanks_append_of_blank gapBlank]
    rfl

theorem isAccepted_iff {text : Text} : isAccepted text = true ↔ Accepted text := by
  unfold isAccepted
  rw [Bool.or_eq_true, Bool.and_eq_true, beq_iff_eq, beq_iff_eq, reads_named_iff]
  constructor
  · rintro (lowLine | ⟨name, gap, rest, isName, gapBlank, rfl⟩)
    · rcases List.head?_eq_some_iff.mp lowLine with ⟨rest, rfl⟩
      exact .lowLine rest
    · exact .named isName gapBlank rest
  · intro accepted
    cases accepted with
    | lowLine rest => exact Or.inl rfl
    | named isName gapBlank rest => exact Or.inr ⟨_, _, rest, isName, gapBlank, rfl⟩

/-- Blank space in front hides an accepted form. -/
theorem not_accepted_of_isBlank {unit : CodeUnit} (blank : unit.isBlank = true) (rest : Text) :
    ¬Accepted (unit :: rest) := by
  intro accepted
  have read := isAccepted_iff.mpr accepted
  rw [isAccepted, Text.startsInName_cons_of_isBlank blank, Bool.false_and, Bool.or_false,
    beq_iff_eq] at read
  obtain rfl : unit = CodeUnit.underscore := Option.some.inj read
  exact absurd blank (by decide)

theorem stopsClause_iff {source : Text} {place : Nat} :
    stopsClause (source.drop place) = true ↔ StopsAt source place := by
  rw [stopsClause, Bool.or_eq_true, beq_iff_eq, List.head?_eq_some_iff,
    Option.isSome_iff_exists, StopsAt, exists_or]
  simp only [Text.after?_eq_some_iff]

theorem StopsAt.lt_length {source : Text} {place : Nat} (stops : StopsAt source place) :
    place < source.length := by
  by_contra beyond
  rcases stops with ⟨rest, atFeed | atEnd⟩
  · rw [List.drop_eq_nil_of_le (Nat.not_lt.mp beyond)] at atFeed
    cases atFeed
  · rw [List.drop_eq_nil_of_le (Nat.not_lt.mp beyond)] at atEnd
    cases atEnd

theorem isSome_clauseEnd?_iff {source : Text} {place : Nat} :
    (clauseEnd? (source.drop place)).isSome = true ↔
      ¬Accepted (source.drop place) ∧ ∃ stop, place ≤ stop ∧ StopsAt source stop := by
  unfold clauseEnd?
  split
  · next accepted =>
    constructor
    · intro impossible
      cases impossible
    · rintro ⟨refused, _⟩
      exact absurd (isAccepted_iff.mp accepted) refused
  · next refused =>
    rw [Text.isSome_seek?_iff, ← isAccepted_iff, and_iff_right refused]
    simp only [List.drop_drop, stopsClause_iff]
    constructor
    · rintro ⟨count, stops⟩
      exact ⟨place + count, Nat.le_add_right _ _, stops⟩
    · rintro ⟨stop, behind, stops⟩
      rcases Nat.exists_eq_add_of_le behind with ⟨count, rfl⟩
      exact ⟨count, stops⟩

theorem isLeast_of_clauseEnd? {source rest : Text} {place : Nat}
    (found : clauseEnd? (source.drop place) = some rest) :
    ∃ stop, IsLeast {stop | place ≤ stop ∧ StopsAt source stop} stop ∧
      rest = source.drop stop := by
  unfold clauseEnd? at found
  split at found
  · cases found
  · rcases Text.isLeast_of_seek? found with ⟨count, ⟨accepted, least⟩, rfl⟩
    simp only [List.drop_drop, Set.mem_ofPred_eq, stopsClause_iff] at accepted
    refine ⟨place + count, ⟨⟨Nat.le_add_right _ _, accepted⟩, ?_⟩, List.drop_drop⟩
    rintro other ⟨behind, stops⟩
    rcases Nat.exists_eq_add_of_le behind with ⟨otherCount, rfl⟩
    apply Nat.add_le_add_left
    apply least
    simpa only [List.drop_drop, Set.mem_ofPred_eq, stopsClause_iff] using stops

/-! ## The pattern -/

theorem clause_eq_some_iff {before ahead rest : Text} :
    clause before ahead = some ((), rest) ↔
      ∃ (blank : CodeUnit) (behind : Text), blank.isBlank = true ∧
        ahead = "catch" ++ blank :: behind ∧
        Text.skipMostBlanks? clauseEnd? behind = some rest := by
  simp only [clause, Option.bind_eq_bind, Option.bind_eq_some_iff, Text.after?_eq_some_iff]
  constructor
  · rintro ⟨behindWord, rfl, found⟩
    split at found
    · cases found
    · next blank behind =>
      split at found
      · next isBlank =>
        rcases Option.bind_eq_some_iff.mp found with ⟨stop, skipped, same⟩
        cases same
        exact ⟨blank, behind, isBlank, rfl, skipped⟩
      · cases found
  · rintro ⟨blank, behind, isBlank, rfl, skipped⟩
    refine ⟨blank :: behind, rfl, ?_⟩
    simp only [isBlank, if_true, skipped, Option.bind_some]
    rfl

theorem isSome_clause_iff {before ahead : Text} :
    (clause before ahead).isSome = true ↔
      ∃ (blank : CodeUnit) (behind : Text), blank.isBlank = true ∧
        ahead = "catch" ++ blank :: behind ∧
        (Text.skipMostBlanks? clauseEnd? behind).isSome = true := by
  constructor
  · intro accepts
    rcases Option.isSome_iff_exists.mp accepts with ⟨⟨⟨⟩, rest⟩, found⟩
    rcases clause_eq_some_iff.mp found with ⟨blank, behind, isBlank, split, skipped⟩
    exact ⟨blank, behind, isBlank, split, skipped ▸ rfl⟩
  · rintro ⟨blank, behind, isBlank, split, skipped⟩
    rcases Option.isSome_iff_exists.mp skipped with ⟨rest, found⟩
    rw [clause_eq_some_iff.mpr ⟨blank, behind, isBlank, split, found⟩]
    rfl

section Word

variable {source behind : Text} {place : Nat} {blank : CodeUnit}
  (split : source.drop place = "catch" ++ blank :: behind)

include split

theorem drop_behind_word (count : Nat) :
    source.drop (place + 5 + (count + 1)) = behind.drop count := by
  have wordLength : (Text.ofString "catch").length = 5 := rfl
  rw [Nat.add_assoc, ← List.drop_drop, split, ← wordLength, List.drop_length_add_append,
    List.drop_succ_cons]

theorem gapLength_eq (isBlank : blank.isBlank = true) :
    gapLength source place = (Text.leadingBlanks behind).length + 1 := by
  have behindWord : source.drop (place + 5) = blank :: behind := by
    rw [← List.drop_drop, split]
    rfl
  rw [gapLength, behindWord, Text.leadingBlanks, List.takeWhile_cons_of_pos isBlank,
    List.length_cons, Text.leadingBlanks]

/-- The attempts of the pattern are the numbers of blank units a clause can be read behind. -/
theorem readsBehind_succ_iff (isBlank : blank.isBlank = true) {count : Nat} :
    ReadsBehind source place (count + 1) ↔
      count ≤ (Text.leadingBlanks behind).length ∧
        (clauseEnd? (behind.drop count)).isSome = true := by
  rw [← drop_behind_word split, isSome_clauseEnd?_iff, ReadsBehind, gapLength_eq split isBlank,
    drop_behind_word split, drop_behind_word split, Nat.add_le_add_iff_right,
    Nat.add_lt_add_iff_right]
  refine and_congr_right fun within => and_congr_left fun _ => ?_
  rcases Nat.lt_or_eq_of_le within with fewer | rfl
  · rcases Text.exists_drop_eq_cons_of_lt fewer with ⟨unit, rest, unitBlank, dropped⟩
    rw [dropped]
    exact iff_of_true (Or.inl fewer) (not_accepted_of_isBlank unitBlank rest)
  · exact or_iff_right (Nat.lt_irrefl _)

end Word

/-- A place begins a reported clause exactly if the pattern accepts there. -/
theorem beginsClause_iff {source : Text} {place : Nat} (before : Text) :
    BeginsClause source place ↔ (clause before (source.drop place)).isSome = true := by
  rw [isSome_clause_iff]
  constructor
  · rintro ⟨blank, behind, split, isBlank, refused, stop, further, stops⟩
    refine ⟨blank, behind, isBlank, split, isSome_largest?_iff.mpr ⟨0, Nat.zero_le _, ?_⟩⟩
    rw [← drop_behind_word split, isSome_clauseEnd?_iff, drop_behind_word split]
    exact ⟨refused, stop, further, stops⟩
  · rintro ⟨blank, behind, isBlank, split, skipped⟩
    rcases isSome_largest?_iff.mp skipped with ⟨count, within, succeeded⟩
    -- if the pattern can be read behind more than one blank unit, then also behind one
    have hidden : ¬Accepted behind := by
      cases count with
      | zero =>
          rw [← drop_behind_word split, isSome_clauseEnd?_iff, drop_behind_word split] at succeeded
          exact succeeded.1
      | succ count =>
          rcases Text.exists_drop_eq_cons_of_lt (Nat.lt_of_lt_of_le (Nat.succ_pos _) within) with
            ⟨unit, rest, unitBlank, dropped⟩
          rw [List.drop_zero] at dropped
          rw [dropped]
          exact not_accepted_of_isBlank unitBlank rest
    rw [← drop_behind_word split, isSome_clauseEnd?_iff] at succeeded
    rcases succeeded with ⟨_, stop, further, stops⟩
    exact ⟨blank, behind, split, isBlank, hidden, stop, by omega, stops⟩

/-- A match of the pattern reaches as far as its clause. -/
theorem reaches_of_clause {source before : Text} {place stop : Nat} (within : stop ≤ source.length)
    (found : clause before (source.drop place) = some ((), source.drop stop)) :
    Reaches source place stop := by
  rcases clause_eq_some_iff.mp found with ⟨blank, behind, isBlank, split, skipped⟩
  rcases largest?_eq_some_iff.mp skipped with ⟨count, inGap, succeeded, larger⟩
  refine ⟨count + 1, ⟨?_, ?_⟩, ?_⟩
  · exact (readsBehind_succ_iff split isBlank).mpr ⟨inGap, succeeded ▸ rfl⟩
  · intro other readsBehind
    by_contra further
    rcases Nat.exists_eq_add_of_lt (Nat.not_le.mp further) with ⟨more, rfl⟩
    rcases (readsBehind_succ_iff split isBlank).mp readsBehind with ⟨otherInGap, read⟩
    rw [larger _ (by omega) otherInGap] at read
    cases read
  · rw [← drop_behind_word split] at succeeded
    rcases isLeast_of_clauseEnd? succeeded with ⟨first, least, sameRest⟩
    have inside := least.1.2.lt_length
    have lengths := congrArg List.length sameRest
    rw [List.length_drop, List.length_drop] at lengths
    obtain rfl : stop = first := by omega
    exact least

theorem clause_advances : clause.Advances := by
  intro before ahead capture rest found
  rcases eq_append_of_clause found with ⟨_, body, rfl⟩
  exact ⟨"catch" ++ body, List.cons_ne_nil _ _, (List.append_assoc ..).symm⟩

/-! ## The findings of a script -/

theorem leftmostFrom_clauses (source : Text) :
    Pattern.LeftmostFrom (BeginsClause source) (Reaches source) 0
      ((clause.occurrences source).map fun occurrence => (occurrence.start, occurrence.stop)) :=
  Pattern.leftmostFrom_occurrences clause_advances (fun _ => beginsClause_iff _)
    (fun _ _ _ within found => reaches_of_clause within found)

/--
The reported clauses of a script.  Scanning from left to right, a clause is
reported wherever one begins, up to where it reaches, and scanning goes on from
there.  The clauses are determined by this, and each of them has one finding,
which stands at the word `catch` and quotes the trimmed clause.
-/
theorem findings_quote_leftmost_clauses (source : Text) :
    ∃ clauses, Pattern.LeftmostFrom (BeginsClause source) (Reaches source) 0 clauses ∧
      (∀ others, Pattern.LeftmostFrom (BeginsClause source) (Reaches source) 0 others →
        others = clauses) ∧
      Rule.catchSyntax.findings source = clauses.map fun clause =>
        { code := "CATCH_SYNTAX"
          category := .blocks
          severity := .error
          message := "Invalid catch: '" ++ Text.trim ((source.take clause.2).drop clause.1) ++
            "' – use 'catch _;' or 'catch err;'"
          position? := some (source.positionAt clause.1)
          edits := [] } := by
  refine ⟨_, leftmostFrom_clauses source, ?_, ?_⟩
  · intro others leftmost
    apply leftmost.unique _ (leftmostFrom_clauses source)
    intro start first second
    exact Reaches.unique
  · rw [List.map_map]
    simp only [Rule.findings, findings]
    apply List.map_congr_left
    intro occurrence listed
    simp only [Function.comp, Pattern.matched_of_mem_occurrences clause_advances listed]
    rfl

/-- The second blank unit hides the name of the first clause, the next one is
accepted, and the last gives the line feed back that stops it. -/
theorem findings_of_blanks_given_back :
    let source : Text := "catch  e;\ncatch _; catch \n"
    ∃ clauses, Pattern.LeftmostFrom (BeginsClause source) (Reaches source) 0 clauses ∧
      clauses.length = 2 ∧
      (Rule.catchSyntax.findings source).map Finding.message =
        [Text.ofString "Invalid catch: 'catch  e;' – use 'catch _;' or 'catch err;'",
          Text.ofString "Invalid catch: 'catch' – use 'catch _;' or 'catch err;'"] := by
  intro source
  rcases findings_quote_leftmost_clauses source with ⟨clauses, leftmost, _, reported⟩
  refine ⟨clauses, leftmost, ?_, by decide +kernel⟩
  have counted := congrArg List.length reported
  rw [List.length_map] at counted
  rw [← counted]
  decide +kernel

/-! ## Scripts with well-formed clauses only -/

/-- The text names the variable of a clause, a low line or a name, and ends it with a semicolon. -/
inductive NamesVariable : Text → Prop where
  | lowLine {gap : Text} (gapBlank : Text.isBlank gap = true) (rest : Text) :
      NamesVariable (CodeUnit.underscore :: (gap ++ CodeUnit.semicolon :: rest))
  | named {name gap : Text} (isName : Text.IsName name) (gapBlank : Text.isBlank gap = true)
      (rest : Text) : NamesVariable (name ++ (gap ++ CodeUnit.semicolon :: rest))

/-- Behind every `catch` of the source stand blank space and the variable. -/
def WellFormedClauses (source : Text) : Prop :=
  ∀ (place : Nat) (behind : Text), source.drop place = "catch" ++ behind →
    ∃ space form : Text, space ≠ [] ∧ Text.isBlank space = true ∧ NamesVariable form ∧
      behind = space ++ form

theorem NamesVariable.accepted {text : Text} (names : NamesVariable text) : Accepted text := by
  cases names with
  | lowLine _ _ => exact .lowLine _
  | named isName gapBlank rest => exact .named isName gapBlank rest

/-- Well-formed clauses can be checked place by place. -/
theorem wellFormedClauses_of_all {source : Text}
    (checked : (List.range source.length).all (fun place =>
      (Text.after? "catch" (source.drop place)).all fun behind =>
        (Text.skipSomeBlanks? behind).any fun form =>
          Text.startsInName form &&
            (Text.skipBlanks (Text.skipName form)).head? == some CodeUnit.semicolon) = true) :
    WellFormedClauses source := by
  intro place behind split
  have inside : place < source.length := by
    by_contra beyond
    rw [List.drop_eq_nil_of_le (Nat.not_lt.mp beyond)] at split
    cases split
  have passed := List.all_eq_true.mp checked place (List.mem_range.mpr inside)
  rw [Text.after?_eq_some_iff.mpr split, Option.all_some, Option.any_eq_true] at passed
  rcases passed with ⟨form, skipped, read⟩
  rw [Bool.and_eq_true, beq_iff_eq, reads_named_iff] at read
  rcases read with ⟨name, gap, rest, isName, gapBlank, rfl⟩
  rcases Text.eq_append_of_skipSomeBlanks? skipped with ⟨space, someSpace, spaceBlank, rfl⟩
  exact ⟨space, _, someSpace, spaceBlank, .named isName gapBlank rest, rfl⟩

theorem findings_eq_nil_iff {source : Text} :
    Rule.catchSyntax.findings source = [] ↔ ∀ place, ¬BeginsClause source place := by
  have leftmost := leftmostFrom_clauses source
  have silent := leftmost.eq_nil_iff
  rw [List.map_eq_nil_iff] at silent
  simp only [Rule.findings, findings, List.map_eq_nil_iff, silent, Nat.zero_le, true_implies]

/-- Where the clauses are well formed, only a second blank unit can begin a reported one. -/
theorem WellFormedClauses.beginsClause_iff_spaced {source : Text}
    (wellFormed : WellFormedClauses source) {place : Nat} :
    BeginsClause source place ↔
      ∃ (first second : CodeUnit) (behind : Text),
        source.drop place = "catch" ++ first :: second :: behind ∧ first.isBlank = true ∧
        second.isBlank = true ∧ ∃ stop, place + 6 ≤ stop ∧ StopsAt source stop := by
  constructor
  · rintro ⟨blank, behind, split, isBlank, refused, stops⟩
    rcases wellFormed place (blank :: behind) split with
      ⟨space, form, someSpace, spaceBlank, names, spaceSplit⟩
    match space with
    | [] => exact absurd rfl someSpace
    | [_] =>
        rcases List.cons.inj spaceSplit with ⟨_, rfl⟩
        exact absurd names.accepted refused
    | first :: second :: space =>
        have blanks : first.isBlank = true ∧ second.isBlank = true ∧ Text.isBlank space = true := by
          simpa [Text.isBlank] using spaceBlank
        rw [spaceSplit] at split
        exact ⟨first, second, space ++ form, split, blanks.1, blanks.2.1, stops⟩
  · rintro ⟨first, second, behind, split, firstBlank, secondBlank, stops⟩
    exact ⟨first, second :: behind, split, firstBlank,
      not_accepted_of_isBlank secondBlank behind, stops⟩

/--
Exactly when a script whose clauses are all well formed has no finding: behind
each `catch` that is followed by two blank units or more, no line feed and no
`end` may stand, from the second of these units on.  So one blank unit is always
safe, and two are not.
-/
theorem silent_on_wellFormedClauses_iff {source : Text} (wellFormed : WellFormedClauses source) :
    Rule.catchSyntax.findings source = [] ↔
      ∀ (place : Nat) (first second : CodeUnit) (behind : Text),
        source.drop place = "catch" ++ first :: second :: behind → first.isBlank = true →
        second.isBlank = true → ∀ stop, place + 6 ≤ stop → ¬StopsAt source stop := by
  rw [findings_eq_nil_iff]
  constructor
  · intro silent place first second behind split firstBlank secondBlank stop further stops
    apply silent place
    exact wellFormed.beginsClause_iff_spaced.mpr
      ⟨first, second, behind, split, firstBlank, secondBlank, stop, further, stops⟩
  · intro nothing place begins
    rcases wellFormed.beginsClause_iff_spaced.mp begins with
      ⟨first, second, behind, split, firstBlank, secondBlank, stop, further, stops⟩
    exact nothing place first second behind split firstBlank secondBlank stop further stops

/-- Two blank units in a script in which nothing stops a clause. -/
theorem silent_on_unstopped_clause :
    let source : Text := "try f() catch  err; g(err)"
    WellFormedClauses source ∧ Rule.catchSyntax.findings source = [] := by
  intro source
  have wellFormed : WellFormedClauses source := wellFormedClauses_of_all (by decide +kernel)
  refine ⟨wellFormed, (silent_on_wellFormedClauses_iff wellFormed).mpr ?_⟩
  intro place first second behind _ _ _ stop _ stops
  have nowhere : (List.range source.length).all
      (fun stop => !stopsClause (source.drop stop)) = true := by
    decide
  have refused := List.all_eq_true.mp nowhere stop (List.mem_range.mpr stops.lt_length)
  rw [stopsClause_iff.mpr stops] at refused
  cases refused

/-- A second blank unit gets a well-formed clause reported. -/
theorem reported_wellFormed_clause :
    let source : Text := "catch  err;\n"
    WellFormedClauses source ∧
      (Rule.catchSyntax.findings source).map Finding.message =
        [Text.ofString "Invalid catch: 'catch  err;' – use 'catch _;' or 'catch err;'"] :=
  ⟨wellFormedClauses_of_all (by decide +kernel), by decide +kernel⟩

end CatchSyntax
end JuliaLint

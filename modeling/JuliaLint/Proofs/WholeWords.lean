import Mathlib.Data.Set.Card
import Mathlib.Data.Set.List
import Mathlib.Order.Bounds.Basic
import JuliaLint.Proofs.MatchShapes
import JuliaLint.Proofs.Names

namespace JuliaLint
namespace ForeignOperator

/-!
# Foreign words where they stand alone

The rule scans for foreign words without overlaps, but loses nothing by it.  No
two words start with the same unit, so a place holds at most one of them.  Inside
a word every unit has a letter in front of it, except behind the space of
`is not`, where no word starts.  Hence no place inside a match accepts, and the
matches are all places at which a word stands with no identifier character on
either side.

What a finding lists are the least of the words that occur, because the words are
sorted before they are cut, and none of them lacks a native spelling.
-/

/--
A foreign word stands at the place, and no identifier character stands right in
front of it or right behind it.
-/
def StandsAt (source : Text) (place : Nat) (word : Word) : Prop :=
  ∃ front rest : Text, source = front ++ (word.spelling ++ rest) ∧ front.length = place ∧
    ∀ character : Char, isIdentifierCodePoint character.toNat = true →
      ¬Text.ofCodePoint character.toNat <:+ front ∧ ¬Text.ofCodePoint character.toNat <+: rest

def standing (source : Text) : Set Word :=
  { word | ∃ place, StandsAt source place word }

/-! ## One place -/

theorem Word.head?_append (word : Word) (rest : Text) :
    (word.spelling ++ rest).head? = word.spelling.head? :=
  List.head?_append_of_ne_nil _ word.spelling_ne_nil

/-- No two words start with the same unit. -/
theorem Word.eq_of_head? {first second : Word}
    (same : first.spelling.head? = second.spelling.head?) : first = second := by
  revert same
  cases first <;> cases second <;> decide

theorem Word.spelling_injective {first second : Word}
    (same : first.spelling = second.spelling) : first = second :=
  eq_of_head? (congrArg List.head? same)

theorem Word.eq_of_append_eq {first second : Word} {firstRest secondRest : Text}
    (same : first.spelling ++ firstRest = second.spelling ++ secondRest) : first = second := by
  apply eq_of_head?
  rw [← first.head?_append firstRest, same, second.head?_append]

theorem afterWord?_eq_some_iff {text rest : Text} {word found : Word} :
    afterWord? text word = some (found, rest) ↔
      found = word ∧ text = word.spelling ++ rest ∧ Text.startsInName rest = false := by
  unfold afterWord?
  rw [Option.bind_eq_bind, Option.bind_eq_some_iff]
  constructor
  · rintro ⟨behind, read, kept⟩
    split at kept
    · cases kept
    · next stops =>
      cases kept
      exact ⟨rfl, Text.after?_eq_some_iff.mp read, Bool.eq_false_iff.mpr stops⟩
  · rintro ⟨rfl, split, stops⟩
    refine ⟨rest, Text.after?_eq_some_iff.mpr split, ?_⟩
    rw [if_neg (Bool.eq_false_iff.mp stops)]
    rfl

theorem wholeWord_eq_some_iff {before ahead rest : Text} {word : Word} :
    wholeWord before ahead = some (word, rest) ↔
      Text.endsInName before = false ∧ ahead = word.spelling ++ rest ∧
        Text.startsInName rest = false := by
  unfold wholeWord
  constructor
  · intro found
    split at found
    · cases found
    · next starts =>
      rcases List.exists_of_findSome?_eq_some found with ⟨tried, _, read⟩
      rcases afterWord?_eq_some_iff.mp read with ⟨rfl, split, stops⟩
      exact ⟨Bool.eq_false_iff.mpr starts, split, stops⟩
  · rintro ⟨starts, split, stops⟩
    have read := afterWord?_eq_some_iff.mpr ⟨rfl, split, stops⟩
    rw [if_neg (Bool.eq_false_iff.mp starts)]
    cases outcome : Word.all.findSome? (afterWord? ahead) with
    | none =>
        rw [List.findSome?_eq_none_iff.mp outcome word word.mem_all] at read
        cases read
    | some answer =>
        -- another word in the table would start with the same unit
        rcases answer with ⟨found, behind⟩
        rcases List.exists_of_findSome?_eq_some outcome with ⟨tried, _, triedRead⟩
        rcases afterWord?_eq_some_iff.mp triedRead with ⟨rfl, triedSplit, _⟩
        obtain rfl : found = word := Word.eq_of_append_eq (triedSplit.symm.trans split)
        rw [List.append_cancel_left (triedSplit.symm.trans split)]

/-- Standing at a place is being read there. -/
theorem standsAt_iff {source : Text} {place : Nat} {word : Word} :
    StandsAt source place word ↔
      ∃ front rest, source = front ++ (word.spelling ++ rest) ∧ front.length = place ∧
        wholeWord front.reverse (word.spelling ++ rest) = some (word, rest) := by
  have boundaries : ∀ front rest : Text,
      (∀ character : Char, isIdentifierCodePoint character.toNat = true →
        ¬Text.ofCodePoint character.toNat <:+ front ∧
          ¬Text.ofCodePoint character.toNat <+: rest) ↔
      wholeWord front.reverse (word.spelling ++ rest) = some (word, rest) := by
    intro front rest
    rw [wholeWord_eq_some_iff, ← Bool.not_eq_true, ← Bool.not_eq_true, Text.endsInName_iff,
      Text.startsInName_iff, List.reverse_reverse]
    constructor
    · intro apart
      refine ⟨?_, rfl, ?_⟩
      · rintro ⟨character, lead, isIdentifier, split⟩
        exact (apart character isIdentifier).1 ⟨lead, split.symm⟩
      · rintro ⟨character, behind, isIdentifier, split⟩
        exact (apart character isIdentifier).2 ⟨behind, split.symm⟩
    · rintro ⟨notInFront, _, notBehind⟩ character isIdentifier
      constructor
      · rintro ⟨lead, split⟩
        exact notInFront ⟨character, lead, isIdentifier, split.symm⟩
      · rintro ⟨behind, split⟩
        exact notBehind ⟨character, behind, isIdentifier, split.symm⟩
  unfold StandsAt
  simp only [boundaries]

/-- A place holds at most one word. -/
theorem StandsAt.word_unique {source : Text} {place : Nat} {first second : Word}
    (one : StandsAt source place first) (other : StandsAt source place second) :
    first = second := by
  rcases one with ⟨front, rest, rfl, rfl, _⟩
  rcases other with ⟨otherFront, otherRest, split, sameLength, _⟩
  exact Word.eq_of_append_eq (List.append_inj split sameLength.symm).2

/-! ## The inside of a match -/

/-- Inside a word there is a letter in front, or a unit with which no word starts. -/
theorem Word.shielded {word : Word} {passed inner : Text} {unit next : CodeUnit}
    (split : word.spelling = passed ++ unit :: next :: inner) :
    unit.isSurrogate = false ∧ isIdentifierCodePoint unit.toNat = true ∨
      ∀ other : Word, other.spelling.head? ≠ some next := by
  have neighbours : (unit, next) ∈ word.spelling.zip word.spelling.tail := by
    rw [split]
    apply List.mem_of_getElem? (i := passed.length)
    simp
  have onAll : Word.all.all (fun word =>
      (word.spelling.zip word.spelling.tail).all fun pair =>
        (!pair.1.isSurrogate && isIdentifierCodePoint pair.1.toNat) ||
          Word.all.all fun other => other.spelling.head? != some pair.2) = true := by
    decide
  have here := List.all_eq_true.mp (List.all_eq_true.mp onAll word word.mem_all) _ neighbours
  rcases Bool.or_eq_true_iff.mp here with letter | nothing
  · exact Or.inl (by simpa using letter)
  · exact Or.inr fun other => by simpa using List.all_eq_true.mp nothing other other.mem_all

theorem wholeWord_inside {word : Word} {passed inner : Text}
    (split : word.spelling = passed ++ inner) (behind : passed ≠ []) (inFront : inner ≠ [])
    (before rest : Text) : wholeWord (passed.reverse ++ before) (inner ++ rest) = none := by
  rcases List.eq_nil_or_concat' passed with rfl | ⟨lead, unit, rfl⟩
  · exact absurd rfl behind
  rcases List.exists_cons_of_ne_nil inFront with ⟨next, inner, rfl⟩
  rw [List.append_assoc, List.singleton_append] at split
  rw [List.reverse_append, List.reverse_singleton, List.append_assoc, List.singleton_append]
  rcases Word.shielded split with ⟨plain, isIdentifier⟩ | nothing
  · rw [wholeWord, if_pos]
    rw [Text.endsInName_cons_of_plain plain, isIdentifier]
  · apply Option.eq_none_iff_forall_not_mem.mpr
    rintro ⟨other, behindOther⟩ found
    apply nothing other
    rw [← other.head?_append behindOther, ← eq_append_of_wholeWord found]
    rfl

theorem wholeWord_sealed (before passed inner rest : Text) (word : Word) (behind : passed ≠ [])
    (inFront : inner ≠ [])
    (found : wholeWord before (passed ++ inner ++ rest) = some (word, rest)) :
    wholeWord (passed.reverse ++ before) (inner ++ rest) = none :=
  wholeWord_inside (List.append_cancel_right (eq_append_of_wholeWord found)).symm behind inFront
    before rest

/-! ## All places -/

/-- The matches are the places at which a word stands; scanning loses none. -/
theorem mem_map_occurrences_iff {source : Text} {place : Nat} {word : Word} :
    (place, word) ∈ (wholeWord.occurrences source).map
        (fun occurrence => (occurrence.start, occurrence.capture)) ↔
      StandsAt source place word := by
  rw [List.mem_map, standsAt_iff]
  constructor
  · rintro ⟨occurrence, listed, same⟩
    cases same
    rcases Pattern.eq_append_of_mem_scanFrom wholeWord_advances listed with
      ⟨lead, rest, split, start, read⟩
    have spelled := eq_append_of_wholeWord read
    rw [spelled] at split read
    refine ⟨lead, rest, split, ?_, ?_⟩
    · rw [start, List.length_nil, Nat.zero_add]
    · rw [← List.append_nil lead.reverse]
      exact read
  · rintro ⟨front, rest, rfl, rfl, read⟩
    have accepts : wholeWord (front.reverse ++ []) (word.spelling ++ rest) =
        some (word, rest) := by
      rw [List.append_nil]
      exact read
    rcases Pattern.exists_mem_scanFrom_at wholeWord_advances wholeWord_sealed [] _ rfl accepts with
      ⟨occurrence, listed, start, capture⟩
    refine ⟨occurrence, listed, ?_⟩
    rw [start, capture, List.length_nil, Nat.zero_add]

/-- Each place is found once, from left to right. -/
theorem starts_ascend (source : Text) :
    ((wholeWord.occurrences source).map Occurrence.start).Pairwise (· < ·) := by
  apply List.pairwise_map.mpr
  exact Pattern.scanFrom_starts_ascend wholeWord_advances [] source

theorem isLeast_start {source : Text} {first : Occurrence Word} {others : List (Occurrence Word)}
    (found : wholeWord.occurrences source = first :: others) :
    IsLeast { place | ∃ word, StandsAt source place word } first.start := by
  constructor
  · refine ⟨first.capture, mem_map_occurrences_iff.mp ?_⟩
    rw [found]
    exact List.mem_cons_self
  · rintro place ⟨word, stands⟩
    have listed := mem_map_occurrences_iff.mpr stands
    have ascends := starts_ascend source
    rw [found] at listed ascends
    rcases List.mem_map.mp listed with ⟨occurrence, member, same⟩
    cases same
    rcases List.mem_cons.mp member with rfl | later
    · exact Nat.le_refl _
    · exact Nat.le_of_lt ((List.pairwise_cons.mp ascends).1 _ (List.mem_map_of_mem later))

/-! ## The words of a finding -/

def Word.nativeSpelling : Word → Text
  | conjunction => "&&"
  | disjunction => "||"
  | elseIf => "elseif"
  | truth => "true"
  | falsity => "false"
  | nonIdentity => "!=="

/-- No foreign word is missing from the table of replacements. -/
theorem advice_spelling (word : Word) :
    advice word.spelling =
      "'" ++ word.spelling ++ "' (use '" ++ word.nativeSpelling ++ "')" := by
  have found : replacements.lookup word.spelling = some word.nativeSpelling := by
    cases word <;> decide
  rw [advice, found, Option.getD_some]

theorem spelling_mem_wordsIn_iff {source : Text} {word : Word} :
    word.spelling ∈ wordsIn (wholeWord.occurrences source) ↔ word ∈ standing source := by
  simp only [mem_wordsIn, standing, Set.mem_ofPred_eq, ← mem_map_occurrences_iff, List.mem_map,
    Prod.mk.injEq]
  constructor
  · rintro ⟨occurrence, listed, same⟩
    rw [matched_eq_spelling listed] at same
    exact ⟨occurrence.start, occurrence, listed, rfl, Word.spelling_injective same⟩
  · rintro ⟨_, occurrence, listed, _, rfl⟩
    exact ⟨occurrence, listed, matched_eq_spelling listed⟩

/-- The words that stand in the source, each once and by ascending spelling. -/
structure ListsStanding (source : Text) (words : List Word) : Prop where
  mem_iff : ∀ word, word ∈ words ↔ word ∈ standing source
  ascend : words.Pairwise fun first second => first.spelling < second.spelling

/-- The sorted texts are the spellings of the words that stand in the source. -/
theorem exists_listsStanding (source : Text) :
    ∃ words, ListsStanding source words ∧
      words.map Word.spelling = wordsIn (wholeWord.occurrences source) := by
  have spelled : wordsIn (wholeWord.occurrences source) ∈ Set.range (List.map Word.spelling) := by
    rw [Set.range_list_map]
    intro text member
    rcases exists_spelling_of_mem_wordsIn rfl member with ⟨word, rfl⟩
    exact ⟨word, rfl⟩
  rcases spelled with ⟨words, sameTexts⟩
  refine ⟨words, ⟨fun word => ?_, ?_⟩, sameTexts⟩
  · rw [← spelling_mem_wordsIn_iff, ← sameTexts, List.mem_map]
    constructor
    · intro member
      exact ⟨word, member, rfl⟩
    · rintro ⟨other, member, same⟩
      rwa [← Word.spelling_injective same]
  · rw [← List.pairwise_map, sameTexts]
    exact Text.ascending_ascends (Text.nodup_eraseDups _)

/-- The listed words are the least of those that stand in the source, three at most. -/
structure IsListing (source : Text) (listed : List Word) : Prop where
  occur : ∀ word ∈ listed, word ∈ standing source
  ascend : listed.Pairwise fun first second => first.spelling < second.spelling
  least : ∀ word ∈ listed, ∀ other ∈ standing source, other ∉ listed →
    word.spelling < other.spelling
  length : listed.length = min 3 (standing source).ncard

section Listing

variable {source : Text} {words : List Word} (lists : ListsStanding source words)

include lists

theorem ListsStanding.ncard_standing : (standing source).ncard = words.length := by
  have distinct : words.Nodup := by
    refine List.nodup_iff_pairwise_ne.mpr (lists.ascend.imp ?_)
    rintro first _ before rfl
    exact List.lt_irrefl _ before
  have sameWords : standing source = words.toFinset := by
    ext word
    rw [List.coe_toFinset, Set.mem_ofPred_eq, lists.mem_iff]
  rw [sameWords, Set.ncard_coe_finset]
  exact List.toFinset_card_of_nodup distinct

/-- The first three of the words that occur are the least three. -/
theorem ListsStanding.isListing_take : IsListing source (words.take 3) := by
  have ascends := lists.ascend
  constructor
  · intro word member
    exact (lists.mem_iff word).mp (List.mem_of_mem_take member)
  · exact ascends.sublist (List.take_sublist 3 _)
  · intro word member other stands unlisted
    rw [← List.take_append_drop 3 words] at ascends
    have later : other ∈ words.drop 3 := by
      have occurs := (lists.mem_iff other).mpr stands
      rw [← List.take_append_drop 3 words] at occurs
      exact (List.mem_append.mp occurs).resolve_left unlisted
    exact (List.pairwise_append.mp ascends).2.2 word member other later
  · rw [List.length_take, lists.ncard_standing]

end Listing

/--
The matches of the rule are all places at which a foreign word stands alone, each
found once and with the one word that stands there.  The rule is silent if there
is no such place.  Otherwise it has one finding, at the first of these places,
which lists the least three of the words that occur with their native spellings.
-/
theorem findings_list_standing_words (source : Text) :
    (∀ place word,
      (place, word) ∈ (wholeWord.occurrences source).map
          (fun occurrence => (occurrence.start, occurrence.capture)) ↔
        StandsAt source place word) ∧
    ((wholeWord.occurrences source).map Occurrence.start).Pairwise (· < ·) ∧
    (∀ place first second,
      StandsAt source place first → StandsAt source place second → first = second) ∧
    (Rule.foreignOperator.findings source = [] ∧ (∀ place word, ¬StandsAt source place word) ∨
      ∃ place listed,
        IsLeast { place | ∃ word, StandsAt source place word } place ∧
        IsListing source listed ∧
        (∀ word ∈ listed, word.nativeSpelling ≠ "Unknown") ∧
        Rule.foreignOperator.findings source =
          [{ code := "FOREIGN_OPERATOR"
             category := .antiPatterns
             severity := .error
             message := "Non-Julia operators: " ++
               Text.join ", " (listed.map fun word =>
                 "'" ++ word.spelling ++ "' (use '" ++ word.nativeSpelling ++ "')") ++ "..."
             position? := some (source.positionAt place)
             edits := [] }]) := by
  refine ⟨fun _ _ => mem_map_occurrences_iff, starts_ascend source,
    fun _ _ _ one other => one.word_unique other, ?_⟩
  cases found : wholeWord.occurrences source with
  | nil =>
      refine Or.inl ⟨?_, ?_⟩
      · simp only [Rule.findings, findings, found]
      · intro place word stands
        have listed := mem_map_occurrences_iff.mpr stands
        rw [found] at listed
        cases listed
  | cons first others =>
      rcases exists_listsStanding source with ⟨words, lists, sameTexts⟩
      refine Or.inr ⟨first.start, words.take 3, ?_, lists.isListing_take, ?_, ?_⟩
      · exact isLeast_start found
      · intro word _
        cases word <;> decide
      · have shown : ((wordsIn (first :: others)).take 3).map advice =
            (words.take 3).map fun word => Text.ofString "'" ++ word.spelling ++ "' (use '" ++
              word.nativeSpelling ++ "')" := by
          rw [← found, ← sameTexts, ← List.map_take, List.map_map]
          exact List.map_congr_left fun word _ => advice_spelling word
        simp only [Rule.findings, findings, found, shown]
        rfl

/-- A word that goes on beyond the basic plane does not stand alone. -/
example : (wholeWord.occurrences "x is not 𝑎or or y").map
    (fun occurrence => (occurrence.start, occurrence.capture)) =
      [(2, .nonIdentity), (14, .disjunction)] := by
  decide +kernel

end ForeignOperator
end JuliaLint

import Mathlib.Algebra.BigOperators.Group.List.Lemmas
import Mathlib.Data.List.TakeWhile
import JuliaLint.Proofs.ReportLines

namespace JuliaLint

/-!
# Frequency tables

A tally is built by counting one value after the other.  A value without an
entry gets one at the end, so the entries stand in the order in which their
values first appeared; a value with an entry raises its count and moves nothing.
Ranking then sorts by count, and since it is stable, first appearance still
decides between values that are equally frequent.  Together with the counts this
leaves only one list of entries.

The entries are written with digits, minus signs and separators.  No separator
is a digit or a minus sign, so the written form determines the entries.
-/

/-! ## Counting -/

section Counting

variable {α : Type} [DecidableEq α] {values : List α} {tally entries others : Tally α}

/-- One entry for each of the values, with the number of its occurrences. -/
structure Counts (values : List α) (entries : Tally α) : Prop where
  distinct : (entries.map Prod.fst).Nodup
  covers : ∀ value, value ∈ entries.map Prod.fst ↔ value ∈ values
  counted : ∀ entry ∈ entries, entry.2 = values.count entry.1

/-- The entries in the order in which their values first appeared. -/
structure CountsInTurn (values : List α) (entries : Tally α) : Prop
    extends Counts values entries where
  inTurn : (entries.map Prod.fst).Pairwise fun earlier later =>
    values.idxOf earlier < values.idxOf later

/-- The entries from the most to the least frequent value, where first appearance decides ties. -/
structure IsFrequencyTable (values : List α) (entries : Tally α) : Prop
    extends Counts values entries where
  ranked : entries.Pairwise fun earlier later =>
    later.2 < earlier.2 ∨
      later.2 = earlier.2 ∧ values.idxOf earlier.1 < values.idxOf later.1

/-- Counting adds an entry for a value that has none and otherwise raises the value's count. -/
theorem Tally.count_cases (value : α) (tally : Tally α) :
    value ∉ tally.map Prod.fst ∧ tally.count value = tally ++ [(value, 1)] ∨
      ∃ front times back, tally = front ++ (value, times) :: back ∧
        tally.count value = front ++ (value, times + 1) :: back := by
  induction tally with
  | nil => exact Or.inl ⟨List.not_mem_nil, rfl⟩
  | cons entry tally ih =>
      rcases entry with ⟨counted, times⟩
      by_cases same : counted = value
      · subst same
        refine Or.inr ⟨[], times, tally, rfl, ?_⟩
        rw [Tally.count, if_pos rfl, List.nil_append]
      · rw [Tally.count, if_neg same]
        rcases ih with ⟨absent, added⟩ | ⟨front, before, back, split, raised⟩
        · refine Or.inl ⟨?_, by rw [added, List.cons_append]⟩
          rw [List.map_cons, List.mem_cons, not_or]
          exact ⟨Ne.symm same, absent⟩
        · refine Or.inr ⟨(counted, times) :: front, before, back, ?_, ?_⟩
          · rw [split, List.cons_append]
          · rw [raised, List.cons_append]

/-- Values that stand in front keep their turn when another value is added. -/
private theorem inTurn_concat {keys : List α} (covered : ∀ key ∈ keys, key ∈ values)
    (inTurn : keys.Pairwise fun earlier later => values.idxOf earlier < values.idxOf later)
    (value : α) :
    keys.Pairwise fun earlier later =>
      (values ++ [value]).idxOf earlier < (values ++ [value]).idxOf later := by
  refine inTurn.imp_of_mem ?_
  intro earlier later earlierKey laterKey before
  rwa [List.idxOf_append_of_mem (covered earlier earlierKey),
    List.idxOf_append_of_mem (covered later laterKey)]

private theorem count_concat_of_ne {value other : α} (different : other ≠ value) :
    (values ++ [value]).count other = values.count other := by
  rw [List.count_append, List.count_singleton, if_neg (by simpa using different.symm),
    Nat.add_zero]

/-- A new value comes last in turn and has occurred once. -/
private theorem CountsInTurn.concat_of_absent (counts : CountsInTurn values tally) {value : α}
    (absent : value ∉ tally.map Prod.fst) :
    CountsInTurn (values ++ [value]) (tally ++ [(value, 1)]) := by
  have fresh : value ∉ values := mt (counts.covers value).mpr absent
  have sameKeys : (tally ++ [(value, 1)]).map Prod.fst = tally.map Prod.fst ++ [value] :=
    List.map_append
  have covered : ∀ key ∈ tally.map Prod.fst, key ∈ values := fun key => (counts.covers key).mp
  refine ⟨⟨?_, ?_, ?_⟩, ?_⟩
  · rw [sameKeys]
    refine List.nodup_append.mpr ⟨counts.distinct, List.nodup_singleton value, ?_⟩
    rintro key listed _ isNew rfl
    exact absent (List.mem_singleton.mp isNew ▸ listed)
  · intro other
    rw [sameKeys, List.mem_append, List.mem_append, counts.covers]
  · intro entry member
    rcases List.mem_append.mp member with old | new
    · have different : entry.1 ≠ value := fun same => absent (same ▸ List.mem_map_of_mem old)
      rw [count_concat_of_ne different, counts.counted entry old]
    · rw [List.mem_singleton.mp new, List.count_append, List.count_eq_zero.mpr fresh]
      simp
  · rw [sameKeys]
    refine List.pairwise_append.mpr
      ⟨inTurn_concat covered counts.inTurn value, List.pairwise_singleton _ _, ?_⟩
    intro earlier earlierKey later isNew
    rw [List.mem_singleton.mp isNew, List.idxOf_append_of_mem (covered earlier earlierKey),
      List.idxOf_append_of_notMem fresh]
    exact Nat.lt_add_right _ (List.idxOf_lt_length_of_mem (covered earlier earlierKey))

/-- A value that was counted before keeps its turn and has occurred once more. -/
private theorem CountsInTurn.concat_of_present {front back : Tally α} {value : α} {times : Nat}
    (counts : CountsInTurn values (front ++ (value, times) :: back)) :
    CountsInTurn (values ++ [value]) (front ++ (value, times + 1) :: back) := by
  have sameKeys : (front ++ (value, times + 1) :: back).map Prod.fst =
      (front ++ (value, times) :: back).map Prod.fst := by
    simp only [List.map_append, List.map_cons]
  have known : value ∈ values := by
    rw [← counts.covers]
    simp
  refine ⟨⟨?_, ?_, ?_⟩, ?_⟩
  · rw [sameKeys]
    exact counts.distinct
  · intro other
    rw [sameKeys, counts.covers, List.mem_append, List.mem_singleton]
    refine ⟨Or.inl, ?_⟩
    rintro (inValues | rfl)
    · exact inValues
    · exact known
  · have alone : value ∉ (front ++ back).map Prod.fst := by
      have distinct := counts.distinct
      rw [List.map_append, List.map_cons, List.nodup_middle, List.nodup_cons,
        ← List.map_append] at distinct
      exact distinct.1
    intro entry member
    rcases List.mem_cons.mp (List.perm_middle.mem_iff.mp member) with rfl | elsewhere
    · have before : times = values.count value :=
        counts.counted (value, times) (List.mem_append_right _ List.mem_cons_self)
      rw [before, List.count_append, List.count_singleton_self]
    · have inKeys : entry.1 ∈ (front ++ back).map Prod.fst := List.mem_map_of_mem elsewhere
      have different : entry.1 ≠ value := fun same => alone (same ▸ inKeys)
      have listed : entry ∈ front ++ (value, times) :: back :=
        List.perm_middle.mem_iff.mpr (List.mem_cons_of_mem _ elsewhere)
      rw [count_concat_of_ne different, counts.counted entry listed]
  · rw [sameKeys]
    exact inTurn_concat (fun key => (counts.covers key).mp) counts.inTurn value

/-- Counting one more value keeps the entries complete and in turn. -/
theorem CountsInTurn.count (counts : CountsInTurn values tally) (value : α) :
    CountsInTurn (values ++ [value]) (tally.count value) := by
  rcases tally.count_cases value with ⟨absent, added⟩ | ⟨front, times, back, rfl, raised⟩
  · rw [added]
    exact counts.concat_of_absent absent
  · rw [raised]
    exact counts.concat_of_present

/-- The tally of a list has its values in the order in which they first appeared. -/
theorem countsInTurn_ofList (values : List α) : CountsInTurn values (Tally.ofList values) := by
  induction values using List.reverseRecOn with
  | nil => exact ⟨⟨List.nodup_nil, fun _ => Iff.rfl, List.forall_mem_nil _⟩, List.Pairwise.nil⟩
  | append_singleton values value ih =>
      have last : Tally.ofList (values ++ [value]) = (Tally.ofList values).count value :=
        List.foldl_append
      rw [last]
      exact ih.count value

/-! ## Ranking -/

/-- The total of the counts is the number of values. -/
theorem Counts.sum_counts (counts : Counts values entries) :
    (entries.map Prod.snd).sum = values.length := by
  have byValue : entries.map Prod.snd = (entries.map Prod.fst).map (values.count ·) := by
    rw [List.map_map]
    exact List.map_congr_left counts.counted
  have sameValues : (entries.map Prod.fst).Perm values.dedup := by
    refine (List.perm_ext_iff_of_nodup counts.distinct values.nodup_dedup).mpr ?_
    intro value
    rw [counts.covers, List.mem_dedup]
  calc
    (entries.map Prod.snd).sum = (values.dedup.map (values.count ·)).sum := by
      rw [byValue]
      exact (sameValues.map _).sum_nat
    _ = values.length := List.sum_map_count_dedup_eq_length values

theorem Counts.perm (counts : Counts values tally) (same : entries.Perm tally) :
    Counts values entries where
  distinct := (same.map Prod.fst).nodup_iff.mpr counts.distinct
  covers := fun value => (same.map Prod.fst).mem_iff.trans (counts.covers value)
  counted := fun entry member => counts.counted entry (same.mem_iff.mp member)

theorem Counts.mem_iff (counts : Counts values entries) (entry : α × Nat) :
    entry ∈ entries ↔ entry.1 ∈ values ∧ entry.2 = values.count entry.1 := by
  constructor
  · intro member
    exact ⟨(counts.covers _).mp (List.mem_map_of_mem member), counts.counted entry member⟩
  · rintro ⟨occurs, times⟩
    rcases List.mem_map.mp ((counts.covers _).mpr occurs) with ⟨listed, member, sameValue⟩
    have same : listed = entry :=
      Prod.ext sameValue (by rw [counts.counted listed member, sameValue, times])
    exact same ▸ member

theorem isFrequencyTable_ranked (values : List α) :
    IsFrequencyTable values (Tally.ofList values).ranked where
  toCounts := (countsInTurn_ofList values).perm (rankByKey_perm _ _)
  ranked := by
    have inTurn := List.pairwise_map.mp (countsInTurn_ofList values).inTurn
    refine (rankByKey_pairwise (fun entry => (entry.2 : Int)) inTurn).imp ?_
    intro earlier later
    rw [Nat.cast_lt, Nat.cast_inj]
    exact id

/-- Counts and first appearances leave no choice between two entries. -/
theorem IsFrequencyTable.unique (one : IsFrequencyTable values entries)
    (other : IsFrequencyTable values others) : entries = others := by
  have sameEntries : entries.Perm others := by
    refine (List.perm_ext_iff_of_nodup one.distinct.of_map other.distinct.of_map).mpr ?_
    intro entry
    rw [one.mem_iff, other.mem_iff]
  refine List.Perm.eq_of_pairwise ?_ one.ranked other.ranked sameEntries
  intro first second _ _ before behind
  omega

end Counting

/-! ## Written numbers -/

namespace Text

/-- The units that decimal integers are written with. -/
def isIntegral (unit : CodeUnit) : Bool :=
  unit.isDigit || unit == 0x2D

theorem isIntegral_of_mem_ofNat {number : Nat} {unit : CodeUnit} (member : unit ∈ ofNat number) :
    isIntegral unit = true := by
  rw [isIntegral, isDigit_of_mem_ofNat member, Bool.true_or]

theorem isIntegral_of_mem_ofInt {number : Int} {unit : CodeUnit} (member : unit ∈ ofInt number) :
    isIntegral unit = true := by
  cases number with
  | ofNat number => exact isIntegral_of_mem_ofNat member
  | negSucc number =>
      rcases List.mem_append.mp member with inSign | inDigits
      · rw [List.mem_singleton.mp inSign]
        rfl
      · exact isIntegral_of_mem_ofNat inDigits

/-- The characters of a written number are its digits. -/
theorem map_char_ofNat (number : Nat) :
    (ofNat number).map (fun unit => Char.ofNat unit.toNat) = Nat.toDigits 10 number := by
  have readBack : ∀ digit ∈ Nat.toDigits 10 number,
      (ofCodePoint digit.toNat).map (fun unit => Char.ofNat unit.toNat) = [digit] := by
    intro digit member
    rcases ofCodePoint_of_mem_toDigits member with ⟨unit, units, sameCode, _⟩
    rw [units, List.map_singleton, sameCode, Char.ofNat_toNat]
  calc
    (ofNat number).map (fun unit => Char.ofNat unit.toNat) =
        (Nat.toDigits 10 number).flatMap fun digit => [digit] := by
      rw [ofNat, ofChars, List.map_flatMap]
      exact List.flatMap_congr readBack
    _ = Nat.toDigits 10 number := List.flatMap_singleton' _

theorem ofNat_injective : Function.Injective ofNat := by
  intro first second same
  have sameDigits : Nat.toDigits 10 first = Nat.toDigits 10 second := by
    rw [← map_char_ofNat, same, map_char_ofNat]
  rw [← Nat.ofDigitChars_ten_toDigits (n := first), sameDigits, Nat.ofDigitChars_ten_toDigits]

/-- Only a negative number starts with a minus sign. -/
private theorem ofNat_ne_ofInt_negSucc (first second : Nat) :
    ofNat first ≠ ofInt (.negSucc second) := by
  intro same
  have signed : (0x2D : CodeUnit) ∈ ofNat first := by
    rw [same]
    exact List.mem_cons_self
  exact absurd (isDigit_of_mem_ofNat signed) (by decide)

theorem ofInt_injective : Function.Injective ofInt := by
  intro first second same
  cases first with
  | ofNat first =>
      cases second with
      | ofNat second => exact congrArg Int.ofNat (ofNat_injective same)
      | negSucc second => exact absurd same (ofNat_ne_ofInt_negSucc first second)
  | negSucc first =>
      cases second with
      | ofNat second => exact absurd same.symm (ofNat_ne_ofInt_negSucc second first)
      | negSucc second =>
          have sameDigits := ofNat_injective (List.append_cancel_left same)
          exact congrArg Int.negSucc (Nat.succ.inj sameDigits)

/-- A stretch of accepted units is cut off in one way only. -/
theorem append_cons_inj_of_stops {accepts : CodeUnit → Bool} {front other rest otherRest : Text}
    {stop otherStop : CodeUnit} (accepted : ∀ unit ∈ front, accepts unit = true)
    (otherAccepted : ∀ unit ∈ other, accepts unit = true) (stops : accepts stop = false)
    (otherStops : accepts otherStop = false)
    (same : front ++ stop :: rest = other ++ otherStop :: otherRest) :
    front = other ∧ stop = otherStop ∧ rest = otherRest := by
  have sameFront : front = other := by
    have stretches := congrArg (List.takeWhile accepts) same
    rwa [(span_append_cons stops front rest).1, (span_append_cons otherStops other otherRest).1,
      List.takeWhile_eq_self_iff.mpr accepted, List.takeWhile_eq_self_iff.mpr otherAccepted]
      at stretches
  subst sameFront
  exact ⟨rfl, List.cons.inj (List.append_cancel_left same)⟩

end Text

/-! ## Written entries -/

namespace Tally

variable {α : Type}

def written (textOf : α → Text) (entry : α × Nat) : Text :=
  textOf entry.1 ++ ": " ++ Text.ofNat entry.2

def inBraces (textOf : α → Text) (entries : Tally α) : Text :=
  "\x7b" ++ Text.join ", " (entries.map (written textOf)) ++ "\x7d"

theorem render_eq_inBraces [DecidableEq α] (textOf : α → Text) (tally : Tally α) :
    tally.render textOf = inBraces textOf tally.ranked :=
  rfl

/-- Behind the count of an entry there is the closing brace or a comma and the next entry. -/
private theorem join_written_cons (textOf : α → Text) (entry : α × Nat) (entries : Tally α) :
    ∃ stop rest, Text.isIntegral stop = false ∧
      Text.join ", " ((entry :: entries).map (written textOf)) ++ Text.ofString "\x7d" =
        textOf entry.1 ++ 0x3A :: (0x20 :: (Text.ofNat entry.2 ++ stop :: rest)) ∧
      (entries = [] ∧ stop = 0x7D ∨
        stop = CodeUnit.comma ∧
          rest = 0x20 :: (Text.join ", " (entries.map (written textOf)) ++
            Text.ofString "\x7d")) := by
  cases entries with
  | nil =>
      refine ⟨0x7D, [], by decide, ?_, Or.inl ⟨rfl, rfl⟩⟩
      rw [List.map_singleton, Text.join_cons, if_pos rfl, written]
      simp only [List.append_assoc]
      rfl
  | cons next entries =>
      refine ⟨CodeUnit.comma, _, by decide, ?_, Or.inr ⟨rfl, rfl⟩⟩
      rw [List.map_cons, Text.join_cons, if_neg (by simp), written]
      simp only [List.append_assoc]
      rfl

/-- A colon stands in every entry and is no part of the closing brace. -/
private theorem closing_ne_join_written (textOf : α → Text) (entry : α × Nat)
    (entries : Tally α) :
    Text.ofString "\x7d" ≠
      Text.join ", " ((entry :: entries).map (written textOf)) ++ Text.ofString "\x7d" := by
  intro same
  rcases join_written_cons textOf entry entries with ⟨stop, rest, _, split, _⟩
  have colon : (0x3A : CodeUnit) ∈ Text.ofString "\x7d" := by
    rw [same, split]
    exact List.mem_append_right _ List.mem_cons_self
  exact absurd colon (by decide)

section Reading

variable {textOf : α → Text} (injective : Function.Injective textOf)
  (integral : ∀ value, ∀ unit ∈ textOf value, Text.isIntegral unit = true)

include injective integral

private theorem eq_of_join_written_eq {entries others : Tally α}
    (same : Text.join ", " (entries.map (written textOf)) ++ Text.ofString "\x7d" =
      Text.join ", " (others.map (written textOf)) ++ Text.ofString "\x7d") :
    entries = others := by
  induction entries generalizing others with
  | nil =>
      cases others with
      | nil => rfl
      | cons other others => exact absurd same (closing_ne_join_written textOf other others)
  | cons entry entries ih =>
      cases others with
      | nil => exact absurd same.symm (closing_ne_join_written textOf entry entries)
      | cons other others =>
          rcases join_written_cons textOf entry entries with ⟨stop, rest, stops, split, behind⟩
          rcases join_written_cons textOf other others with
            ⟨otherStop, otherRest, otherStops, otherSplit, otherBehind⟩
          rw [split, otherSplit] at same
          -- the value ends at its colon, the count at the comma or the brace behind it
          rcases Text.append_cons_inj_of_stops (integral entry.1) (integral other.1) (by decide)
            (by decide) same with ⟨sameValue, _, behindColon⟩
          rcases Text.append_cons_inj_of_stops (fun _ => Text.isIntegral_of_mem_ofNat)
            (fun _ => Text.isIntegral_of_mem_ofNat) stops otherStops
            (List.cons.inj behindColon).2 with ⟨sameTimes, sameStop, sameRest⟩
          have sameEntry : entry = other :=
            Prod.ext (injective sameValue) (Text.ofNat_injective sameTimes)
          have sameEntries : entries = others := by
            rcases behind with ⟨rfl, isBrace⟩ | ⟨isComma, isRest⟩
            · rcases otherBehind with ⟨rfl, _⟩ | ⟨otherComma, _⟩
              · rfl
              · rw [isBrace, otherComma] at sameStop
                cases sameStop
            · rcases otherBehind with ⟨rfl, otherBrace⟩ | ⟨_, otherIsRest⟩
              · rw [isComma, otherBrace] at sameStop
                cases sameStop
              · rw [isRest, otherIsRest] at sameRest
                exact ih (List.cons.inj sameRest).2
          rw [sameEntry, sameEntries]

/-- Different entries are written differently if their values are. -/
theorem inBraces_injective : Function.Injective (inBraces textOf) := by
  intro entries others same
  rw [inBraces, inBraces, List.append_assoc, List.append_assoc] at same
  exact eq_of_join_written_eq injective integral (List.append_cancel_left same)

/-- The text of a tally shows its ranked entries and no others. -/
theorem render_eq_inBraces_iff [DecidableEq α] (tally others : Tally α) :
    tally.render textOf = inBraces textOf others ↔ others = tally.ranked := by
  rw [render_eq_inBraces, (inBraces_injective injective integral).eq_iff, eq_comm]

end Reading
end Tally

/-! ## Indentation -/

namespace IndentConsistency

/-- The lines on which something is written. -/
def filledLines (source : Text) : List Text :=
  (Text.lines source).filter fun line => Text.trim line ≠ []

theorem remainders_eq_map_filledLines (source : Text) :
    remainders source =
      (filledLines source).map fun line => (Text.leadingBlanks line).length % 4 := by
  unfold remainders filledLines
  congr 1
  refine List.filter_congr fun line _ => ?_
  rw [Bool.eq_iff_iff, Bool.not_eq_true', decide_eq_true_eq, ne_eq, Text.trim_eq_nil_iff,
    Bool.not_eq_true]

theorem exists_remainder_ne_zero_iff (source : Text) :
    (∃ remainder ∈ remainders source, remainder ≠ 0) ↔
      ∃ line ∈ Text.lines source, Text.trim line ≠ [] ∧ ¬4 ∣ (Text.leadingBlanks line).length := by
  rw [remainders_eq_map_filledLines]
  constructor
  · rintro ⟨remainder, listed, uneven⟩
    rcases List.mem_map.mp listed with ⟨line, filled, rfl⟩
    rcases List.mem_filter.mp filled with ⟨inSource, notBlank⟩
    exact ⟨line, inSource, of_decide_eq_true notBlank, mt Nat.mod_eq_zero_of_dvd uneven⟩
  · rintro ⟨line, inSource, notBlank, uneven⟩
    have filled : line ∈ filledLines source :=
      List.mem_filter.mpr ⟨inSource, decide_eq_true notBlank⟩
    exact ⟨_, List.mem_map_of_mem filled, mt Nat.dvd_of_mod_eq_zero uneven⟩

/-- There is one finding or none, and the remainders decide which. -/
theorem findings_cases (source : Text) :
    (∀ remainder ∈ remainders source, remainder = 0) ∧ findings source = [] ∨
      (∃ remainder ∈ remainders source, remainder ≠ 0) ∧
        findings source = [Rule.indentConsistency.finding
          ("Inconsistent indentation: " ++ (Tally.ofList (remainders source)).render Text.ofNat ++
            " – use 4 spaces") none []] := by
  unfold findings
  split
  · next level =>
    refine Or.inl ⟨fun remainder listed => ?_, rfl⟩
    exact eq_of_beq (List.all_eq_true.mp level remainder listed)
  · next uneven =>
    refine Or.inr ⟨?_, rfl⟩
    simpa using uneven

theorem findings_ne_nil_iff (source : Text) :
    findings source ≠ [] ↔
      ∃ line ∈ Text.lines source, Text.trim line ≠ [] ∧ ¬4 ∣ (Text.leadingBlanks line).length := by
  rw [← exists_remainder_ne_zero_iff]
  rcases findings_cases source with ⟨level, silent⟩ | ⟨uneven, reported⟩
  · refine iff_of_false (not_not_intro silent) ?_
    rintro ⟨remainder, listed, notZero⟩
    exact notZero (level remainder listed)
  · rw [reported]
    exact iff_of_true (List.cons_ne_nil _ _) uneven

/-- The message shows the ranked tally of the remainders and no other entries. -/
theorem message_eq_iff {source : Text} {finding : Finding} (member : finding ∈ findings source)
    (others : Tally Nat) :
    finding.message = "Inconsistent indentation: " ++ Tally.inBraces Text.ofNat others ++
        " – use 4 spaces" ↔
      others = (Tally.ofList (remainders source)).ranked := by
  rw [← Tally.render_eq_inBraces_iff Text.ofNat_injective
    fun _ _ => Text.isIntegral_of_mem_ofNat]
  rcases findings_cases source with ⟨_, silent⟩ | ⟨_, reported⟩
  · rw [silent] at member
    cases member
  · rw [reported, List.mem_singleton] at member
    rw [member]
    exact (List.append_left_inj _).trans (List.append_right_inj _)

end IndentConsistency

/--
A rendered tally is the frequency table of its values.  There is one list of
entries whose values are those of the list, each once and with its number of
occurrences, from the most to the least frequent and by first appearance among
equals; its counts add up to the length of the list, and it is what the text
shows, however a value is written.  Decimal integers leave no other reading.

So the indentation rule shows how many of the lines that are not blank have each
remainder.  It reports exactly if one of these lines starts with a number of blank
units that four does not divide, and then a remainder that is not zero is shown.
-/
theorem render_shows_frequency_table :
    (∀ values : List Int, ∃ entries : Tally Int,
      IsFrequencyTable values entries ∧
      (∀ others, IsFrequencyTable values others → others = entries) ∧
      (entries.map Prod.snd).sum = values.length ∧
      (∀ textOf : Int → Text, (Tally.ofList values).render textOf = Tally.inBraces textOf entries) ∧
      ∀ others, (Tally.ofList values).render Text.ofInt = Tally.inBraces Text.ofInt others →
        others = entries) ∧
    ∀ source : Text,
      (Rule.indentConsistency.findings source ≠ [] ↔
        ∃ line ∈ Text.lines source,
          Text.trim line ≠ [] ∧ ¬4 ∣ (Text.leadingBlanks line).length) ∧
      ∀ finding ∈ Rule.indentConsistency.findings source, ∃ entries : Tally Nat,
        (∀ others,
          finding.message = "Inconsistent indentation: " ++ Tally.inBraces Text.ofNat others ++
            " – use 4 spaces" ↔ others = entries) ∧
        IsFrequencyTable ((IndentConsistency.filledLines source).map fun line =>
          (Text.leadingBlanks line).length % 4) entries ∧
        (entries.map Prod.snd).sum = (IndentConsistency.filledLines source).length ∧
        ∃ entry ∈ entries, entry.1 ≠ 0 := by
  refine ⟨fun values => ?_, fun source => ⟨IndentConsistency.findings_ne_nil_iff source, ?_⟩⟩
  · have table := isFrequencyTable_ranked values
    refine ⟨(Tally.ofList values).ranked, table, fun others other => other.unique table,
      table.sum_counts, fun textOf => Tally.render_eq_inBraces textOf _, fun others shown => ?_⟩
    exact (Tally.render_eq_inBraces_iff Text.ofInt_injective
      (fun _ _ => Text.isIntegral_of_mem_ofInt) _ others).mp shown
  · intro finding member
    have table := isFrequencyTable_ranked (IndentConsistency.remainders source)
    refine ⟨_, IndentConsistency.message_eq_iff member, ?_, ?_, ?_⟩
    · rw [← IndentConsistency.remainders_eq_map_filledLines]
      exact table
    · rw [table.sum_counts, IndentConsistency.remainders_eq_map_filledLines, List.length_map]
    · have reported := List.ne_nil_of_mem member
      rcases (IndentConsistency.exists_remainder_ne_zero_iff source).mpr
        ((IndentConsistency.findings_ne_nil_iff source).mp reported) with
        ⟨remainder, listed, notZero⟩
      rcases List.mem_map.mp ((table.covers remainder).mpr listed) with ⟨entry, shown, rfl⟩
      exact ⟨entry, shown, notZero⟩

/-- Equally frequent values stand by first appearance, behind which a rarer one appeared. -/
theorem frequencies_of_mixed_indentation :
    let values : List Int := [5, 0, -1, 5, -1]
    let source : Text := "  a\n \n b\nc\n\t\td\n    e"
    let finding := Rule.indentConsistency.finding
      "Inconsistent indentation: \x7b2: 2, 0: 2, 1: 1\x7d – use 4 spaces" none []
    (Tally.ofList values).render Text.ofInt = "\x7b5: 2, -1: 2, 0: 1\x7d" ∧
      IsFrequencyTable values [(5, 2), (-1, 2), (0, 1)] ∧
      finding ∈ Rule.indentConsistency.findings source ∧
      IsFrequencyTable [2, 1, 0, 2, 0] [(2, 2), (0, 2), (1, 1)] ∧
      [2, 2, 1].sum = (IndentConsistency.filledLines source).length := by
  intro values source finding
  have reported : finding ∈ Rule.indentConsistency.findings source := by decide
  rcases render_shows_frequency_table.1 values with ⟨entries, table, _, _, _, only⟩
  rcases (render_shows_frequency_table.2 source).2 finding reported with
    ⟨remainders, shown, remainderTable, total, _⟩
  obtain rfl : [(5, 2), (-1, 2), (0, 1)] = entries := only _ (by decide)
  obtain rfl : [(2, 2), (0, 2), (1, 1)] = remainders := (shown _).mp (by decide)
  exact ⟨by decide, table, reported, remainderTable, total⟩

end JuliaLint

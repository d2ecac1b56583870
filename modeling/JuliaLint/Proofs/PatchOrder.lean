import JuliaLint.Proofs.Patchwork

namespace JuliaLint

/-!
# When the order of independent patches matters

Independent patches lie inside the source, and no two of them overlap or
replace the same range.  A repair makes all of them, and their order in the
ranking is the only thing that can depend on the order in which they are given.
The ranking compares right ends, so it leaves open just one choice: an
insertion and a range that stops at the same place.  Made before the range, the
insertion lands right behind the replacement.  Made after it, the insertion
still counts as many units as the range had, and lands elsewhere as soon as the
replacement is longer or shorter than the range.

The order is irrelevant exactly when each such insertion commutes with the
units between its two possible places.
-/

namespace Patch

instance (text : Text) (patch : Patch) : Decidable (patch.FitsIn text) :=
  decidable_of_iff
    (0 ≤ patch.start ∧ patch.start ≤ patch.stop ∧ patch.stop ≤ text.length)
    ⟨fun ⟨nonneg, ordered, within⟩ => ⟨nonneg, ordered, within⟩,
      fun fits => ⟨fits.start_nonneg, fits.start_le_stop, fits.stop_le_length⟩⟩

/-- The patch inserts its replacement where the other one stops. -/
def InsertsBehind (insertion range : Patch) : Prop :=
  insertion.start = range.stop ∧ insertion.stop = range.stop

instance (insertion range : Patch) : Decidable (insertion.InsertsBehind range) :=
  inferInstanceAs (Decidable (_ ∧ _))

/--
The units between the end of a replacement and the place that lies as far
behind its start as the range is wide.  `rest` is the text that follows the
replacement; only one of the two pieces can be nonempty.
-/
def slack (range : Patch) (rest : Text) : Text :=
  range.replacement.drop (range.stop - range.start).toNat ++
    rest.take ((range.stop - range.start).toNat - range.replacement.length)

end Patch

/-- Patches inside the source that neither overlap nor share a range. -/
structure Independent (source : Text) (patches : List Patch) : Prop where
  fits : ∀ patch ∈ patches, patch.FitsIn source
  apart : patches.Pairwise fun first second => first.overlaps second = false
  distinct : patches.Pairwise fun first second =>
    (first.start, first.stop) ≠ (second.start, second.stop)

/-- The applicable patches from left to right, that is by the middle of their ranges. -/
def fromLeftToRight (patches : List Patch) : List Patch :=
  (rankByKey (fun patch => patch.start + patch.stop)
    (patches.filter Patch.applicable)).reverse

/--
Every insertion behind its left neighbour commutes with the slack of that
neighbour.  The patches are listed from left to right.
-/
def TiesCommute (source : Text) : (ordered : List Patch) → Prop
  | [] => True
  | [_] => True
  | range :: insertion :: back =>
      (insertion.InsertsBehind range →
        insertion.replacement ++ range.slack (source.patchwork range.stop.toNat back) =
          range.slack (source.patchwork range.stop.toNat back) ++ insertion.replacement) ∧
      TiesCommute source (insertion :: back)

instance decidableTiesCommute (source : Text) :
    (ordered : List Patch) → Decidable (TiesCommute source ordered)
  | [] => isTrue trivial
  | [_] => isTrue trivial
  | _ :: insertion :: back =>
      have := decidableTiesCommute source (insertion :: back)
      inferInstanceAs (Decidable (_ ∧ _))

/-! ## One insertion behind one range -/

private theorem insert_around_iff (front gap inserted tail : Text) :
    front ++ inserted ++ (gap ++ tail) = front ++ gap ++ inserted ++ tail ↔
      inserted ++ gap = gap ++ inserted := by
  have cancelled : front ++ inserted ++ (gap ++ tail) = front ++ gap ++ inserted ++ tail ↔
      front ++ (inserted ++ gap) ++ tail = front ++ (gap ++ inserted) ++ tail := by
    simp only [List.append_assoc]
  rw [cancelled, List.append_left_inj, List.append_right_inj]

/-- Where an insertion lands does not matter exactly when it commutes with what
lies between the two places. -/
private theorem insert_eq_iff (replacement rest inserted : Text) (width : Nat) :
    (replacement ++ rest).take width ++ inserted ++ (replacement ++ rest).drop width =
        replacement ++ inserted ++ rest ↔
      inserted ++ (replacement.drop width ++ rest.take (width - replacement.length)) =
        replacement.drop width ++ rest.take (width - replacement.length) ++ inserted := by
  rcases Nat.le_total width replacement.length with longer | shorter
  · have noRest : width - replacement.length = 0 := Nat.sub_eq_zero_of_le longer
    have around := insert_around_iff (replacement.take width) (replacement.drop width)
      inserted rest
    rw [List.take_append_drop] at around
    rw [List.take_append_of_le_length longer, List.drop_append_of_le_length longer, noRest,
      List.take_zero, List.append_nil]
    exact around
  · have around := insert_around_iff replacement (rest.take (width - replacement.length))
      inserted (rest.drop (width - replacement.length))
    rw [List.take_append_drop] at around
    rw [List.take_append, List.drop_append, List.take_of_length_le shorter,
      List.drop_of_length_le shorter, List.nil_append, List.nil_append, eq_comm]
    exact around

section Tie

variable {source text rest : Text} {range insertion : Patch}
  (rangeFits : range.FitsIn source) (insertionFits : insertion.FitsIn source)
  (tie : insertion.InsertsBehind range)
  (untouched : text = source.take range.stop.toNat ++ rest)

include rangeFits insertionFits tie untouched

/-- The insertion first: it lands right behind the replacement. -/
theorem splice_insertion_then_range :
    (text.splice insertion).splice range =
      source.take range.start.toNat ++
        (range.replacement ++ insertion.replacement ++ rest) := by
  rcases tie with ⟨atStop, emptyThere⟩
  have inserted := Text.splice_take_append rest insertionFits
  rw [atStop, emptyThere] at inserted
  rw [untouched, inserted, List.append_assoc, Text.splice_take_append _ rangeFits]
  simp only [List.append_assoc]

/-- The range first: the insertion still counts the units of the range. -/
theorem splice_range_then_insertion :
    (text.splice range).splice insertion =
      source.take range.start.toNat ++
        ((range.replacement ++ rest).take (range.stop - range.start).toNat ++
          insertion.replacement ++
          (range.replacement ++ rest).drop (range.stop - range.start).toNat) := by
  rcases tie with ⟨atStop, emptyThere⟩
  have ordered := rangeFits.start_le_stop
  have within := rangeFits.stop_le_length
  have startNonneg := rangeFits.start_nonneg
  have stopSplit : range.stop.toNat =
      (source.take range.start.toNat).length + (range.stop - range.start).toNat := by
    rw [List.length_take]
    omega
  have placeNonneg : 0 ≤ insertion.start := insertionFits.start_nonneg
  rw [untouched, Text.splice_take_append _ rangeFits, List.append_assoc,
    Text.splice_of_nonneg _ placeNonneg (by omega), atStop, emptyThere, stopSplit,
    List.take_length_add_append, List.drop_length_add_append]
  simp only [List.append_assoc]

/-- Which of the two is made first is irrelevant exactly when the insertion
commutes with the slack. -/
theorem splice_comm_iff :
    (text.splice range).splice insertion = (text.splice insertion).splice range ↔
      insertion.replacement ++ range.slack rest =
        range.slack rest ++ insertion.replacement := by
  rw [splice_insertion_then_range rangeFits insertionFits tie untouched,
    splice_range_then_insertion rangeFits insertionFits tie untouched, List.append_right_inj]
  exact insert_eq_iff _ _ _ _

end Tie

/-! ## Listing independent patches from left to right -/

/-- Independent patches, each of which stops where the next one starts or before. -/
structure LeftToRight (source : Text) (ordered : List Patch) : Prop where
  fits : ∀ patch ∈ ordered, patch.FitsIn source
  ascending : ordered.Pairwise fun earlier later => earlier.stop ≤ later.start
  distinct : ordered.Pairwise fun first second =>
    (first.start, first.stop) ≠ (second.start, second.stop)

theorem LeftToRight.sublist {source : Text} {some ordered : List Patch}
    (listing : LeftToRight source ordered) (part : some.Sublist ordered) :
    LeftToRight source some where
  fits patch member := listing.fits patch (part.subset member)
  ascending := listing.ascending.sublist part
  distinct := listing.distinct.sublist part

theorem fromLeftToRight_perm (patches : List Patch) :
    (fromLeftToRight patches).Perm (patches.filter Patch.applicable) :=
  (List.reverse_perm _).trans (rankByKey_perm _ _)

/-- Of two patches that do not overlap, the one with the smaller middle stops first. -/
theorem leftToRight_fromLeftToRight {source : Text} {patches : List Patch}
    (independent : Independent source (patches.filter Patch.applicable)) :
    LeftToRight source (fromLeftToRight patches) := by
  have permuted := fromLeftToRight_perm patches
  have fits : ∀ patch ∈ fromLeftToRight patches, patch.FitsIn source :=
    fun patch member => independent.fits patch (permuted.mem_iff.mp member)
  have apart : (fromLeftToRight patches).Pairwise
      fun first second => first.overlaps second = false :=
    permuted.symm.pairwise independent.apart
      fun disjoint => (Patch.overlaps_comm _ _).trans disjoint
  have middles : (fromLeftToRight patches).Pairwise fun earlier later =>
      earlier.start + earlier.stop ≤ later.start + later.stop :=
    List.pairwise_reverse.mpr (rankByKey_descending _ _)
  refine ⟨fits, ?_, permuted.symm.pairwise independent.distinct Ne.symm⟩
  refine (apart.and middles).imp_of_mem ?_
  intro earlier later earlierMember laterMember both
  rcases both with ⟨disjoint, middle⟩
  have earlierOrdered := (fits earlier earlierMember).start_le_stop
  have laterOrdered := (fits later laterMember).start_le_stop
  rcases Patch.overlaps_eq_false_iff.mp disjoint with laterFirst | earlierFirst
  · omega
  · exact earlierFirst

/-! ## Rankings of independent patches -/

section Ranking

variable {source : Text} {first : Patch} {others ranked : List Patch}

/-- A ranking, read backwards, starts with the leftmost patch or with an
insertion behind it. -/
private theorem head_of_ranking {head : Patch} {tail : List Patch}
    (listing : LeftToRight source (first :: others))
    (byStop : (head :: tail).Pairwise fun earlier later => earlier.stop ≤ later.stop)
    (permuted : (head :: tail).Perm (first :: others)) :
    head = first ∨ head ∈ others ∧ head.InsertsBehind first := by
  rcases List.mem_cons.mp (permuted.mem_iff.mp List.mem_cons_self) with same | behind
  · exact Or.inl same
  · rcases List.mem_cons.mp (permuted.mem_iff.mpr List.mem_cons_self) with same | inTail
    · exact Or.inl same.symm
    · have stopsFirst := (List.pairwise_cons.mp byStop).1 first inTail
      have startsBehind := (List.pairwise_cons.mp listing.ascending).1 head behind
      have headOrdered :=
        (listing.fits head (List.mem_cons_of_mem first behind)).start_le_stop
      refine Or.inr ⟨behind, ?_, ?_⟩
      · omega
      · omega

/-- An insertion behind the leftmost patch is its right neighbour. -/
private theorem others_eq_of_insertsBehind {insertion : Patch}
    (listing : LeftToRight source (first :: others)) (member : insertion ∈ others)
    (tie : insertion.InsertsBehind first) :
    ∃ back, others = insertion :: back := by
  cases others with
  | nil => cases member
  | cons neighbour back =>
      rcases List.mem_cons.mp member with same | further
      · exact ⟨back, same ▸ rfl⟩
      · rcases tie with ⟨atStop, emptyThere⟩
        rcases List.pairwise_cons.mp listing.ascending with ⟨behindFirst, restAscending⟩
        have neighbourBehind := behindFirst neighbour List.mem_cons_self
        have insertionBehind := (List.pairwise_cons.mp restAscending).1 insertion further
        have neighbourOrdered :=
          (listing.fits neighbour (by simp)).start_le_stop
        have restDistinct := (List.pairwise_cons.mp listing.distinct).2
        have differ := (List.pairwise_cons.mp restDistinct).1 insertion further
        have sameRange : (neighbour.start, neighbour.stop) =
            (insertion.start, insertion.stop) := by
          apply Prod.ext
          · show neighbour.start = insertion.start
            omega
          · show neighbour.stop = insertion.stop
            omega
        exact absurd sameRange differ

/-- When the patches behind an insertion are made, the source is untouched up to it. -/
private theorem foldr_splice_behind {range insertion : Patch} {back : List Patch}
    (listing : LeftToRight source (range :: insertion :: back)) :
    back.foldr (fun patch text => text.splice patch) source =
      source.take range.stop.toNat ++ source.patchwork range.stop.toNat back := by
  have backListing : LeftToRight source back := listing.sublist (by simp)
  have behindRange := (List.pairwise_cons.mp listing.ascending).1
  apply Text.foldr_splice_eq_patchwork _ _ _ backListing.fits backListing.ascending
  intro patch member
  have behind := behindRange patch (by simp [member])
  have nonneg := (backListing.fits patch member).start_nonneg
  omega

private theorem TiesCommute.tail {patch : Patch} {patches : List Patch}
    (ties : TiesCommute source (patch :: patches)) : TiesCommute source patches := by
  cases patches with
  | nil => trivial
  | cons neighbour back => exact ties.2

end Ranking

/--
If the ties commute, every ranking of the patches leads to the text that the
listing from left to right leads to.  Where the two differ, an insertion and the
range in front of it have changed places, so both lists lose two patches.
-/
theorem foldr_splice_eq_of_tiesCommute {source : Text} {ordered ranked : List Patch}
    (listing : LeftToRight source ordered)
    (byStop : ranked.Pairwise fun earlier later => earlier.stop ≤ later.stop)
    (permuted : ranked.Perm ordered) (ties : TiesCommute source ordered) :
    ranked.foldr (fun patch text => text.splice patch) source =
      ordered.foldr (fun patch text => text.splice patch) source := by
  cases ranked with
  | nil => rw [permuted.nil_eq]
  | cons head tail =>
      cases ordered with
      | nil => exact absurd permuted.eq_nil (List.cons_ne_nil head tail)
      | cons first others =>
          rcases head_of_ranking listing byStop permuted with same | ⟨member, tie⟩
          · subst same
            have rest := foldr_splice_eq_of_tiesCommute
              (listing.sublist (List.sublist_cons_self head others))
              (List.pairwise_cons.mp byStop).2 permuted.cons_inv ties.tail
            rw [List.foldr_cons, List.foldr_cons, rest]
          · rcases others_eq_of_insertsBehind listing member tie with ⟨back, rfl⟩
            have tailPermuted : tail.Perm (first :: back) :=
              (permuted.trans (List.Perm.swap head first back)).cons_inv
            have tailByStop := (List.pairwise_cons.mp byStop).2
            cases tail with
            | nil => exact absurd tailPermuted.symm.eq_nil (List.cons_ne_nil first back)
            | cons second tail =>
                have isFirst : second = first := by
                  have withoutInsertion : LeftToRight source (first :: back) :=
                    listing.sublist (by simp)
                  rcases head_of_ranking withoutInsertion tailByStop tailPermuted with
                    same | ⟨further, otherTie⟩
                  · exact same
                  · have restDistinct := (List.pairwise_cons.mp listing.distinct).2
                    have differ := (List.pairwise_cons.mp restDistinct).1 second further
                    have sameRange : (head.start, head.stop) = (second.start, second.stop) := by
                      rw [tie.1, tie.2, otherTie.1, otherTie.2]
                    exact absurd sameRange differ
                subst isFirst
                have rest := foldr_splice_eq_of_tiesCommute (listing.sublist (by simp))
                  (List.pairwise_cons.mp tailByStop).2 tailPermuted.cons_inv ties.tail.tail
                have rangeFits := listing.fits second (by simp)
                have insertionFits := listing.fits head (by simp)
                rw [List.foldr_cons, List.foldr_cons, List.foldr_cons, List.foldr_cons, rest]
                exact (splice_comm_iff rangeFits insertionFits tie
                  (foldr_splice_behind listing)).mpr (ties.1 tie)
termination_by ordered.length

/-! ## Repairs by independent patches -/

/-- A list whose keys never increase is its own ranking. -/
private theorem rankByKey_of_descending {α : Type} (key : α → Int) (elements : List α)
    (descending : elements.Pairwise fun earlier later => key later ≤ key earlier) :
    rankByKey key elements = elements := by
  induction elements with
  | nil => rfl
  | cons element others ih =>
      rcases List.pairwise_cons.mp descending with ⟨largest, restDescending⟩
      rw [rankByKey, ih restDescending]
      cases others with
      | nil => rfl
      | cons other others =>
          rw [insertByKey, if_pos (largest other List.mem_cons_self)]

theorem Independent.perm {source : Text} {first second : List Patch}
    (independent : Independent source first) (permuted : first.Perm second) :
    Independent source second where
  fits patch member := independent.fits patch (permuted.mem_iff.mpr member)
  apart := permuted.pairwise independent.apart
    fun disjoint => (Patch.overlaps_comm _ _).trans disjoint
  distinct := permuted.pairwise independent.distinct Ne.symm

theorem repair_text_of_independent {source : Text} {patches : List Patch}
    (independent : Independent source (patches.filter Patch.applicable)) :
    (repair source patches).text =
      (rankPatches patches).reverse.foldr (fun patch text => text.splice patch) source := by
  rw [repair_of_apart source independent.apart, List.foldr_reverse]

/-- Independent patches that are given in the order of a ranking are made in that order. -/
private theorem repair_text_of_ranked {source : Text} {patches ordered : List Patch}
    (independent : Independent source (patches.filter Patch.applicable))
    (permuted : ordered.Perm (patches.filter Patch.applicable))
    (byStop : ordered.Pairwise fun earlier later => earlier.stop ≤ later.stop) :
    (ordered.reverse.filter Patch.applicable).Perm (patches.filter Patch.applicable) ∧
      (repair source ordered.reverse).text =
        ordered.foldr (fun patch text => text.splice patch) source := by
  have allApplicable : ordered.reverse.filter Patch.applicable = ordered.reverse := by
    apply List.filter_eq_self.mpr
    intro patch member
    have listed := permuted.mem_iff.mp (List.mem_reverse.mp member)
    exact (List.mem_filter.mp listed).2
  have samePatches : (ordered.reverse.filter Patch.applicable).Perm
      (patches.filter Patch.applicable) := by
    rw [allApplicable]
    exact (List.reverse_perm ordered).trans permuted
  have ranking : rankPatches ordered.reverse = ordered.reverse := by
    rw [rankPatches, allApplicable]
    exact rankByKey_of_descending Patch.stop _ (List.pairwise_reverse.mpr byStop)
  refine ⟨samePatches, ?_⟩
  rw [repair_text_of_independent (independent.perm samePatches.symm), ranking,
    List.reverse_reverse]

private theorem LeftToRight.byStop {source : Text} {ordered : List Patch}
    (listing : LeftToRight source ordered) :
    ordered.Pairwise fun earlier later => earlier.stop ≤ later.stop := by
  refine listing.ascending.imp_of_mem ?_
  intro earlier later _ laterMember behind
  exact Int.le_trans behind (listing.fits later laterMember).start_le_stop

private theorem tiesCommute_of_neighbours {source : Text} {ordered : List Patch}
    (neighbours : ∀ front range insertion back,
      ordered = front ++ range :: insertion :: back → insertion.InsertsBehind range →
      insertion.replacement ++ range.slack (source.patchwork range.stop.toNat back) =
        range.slack (source.patchwork range.stop.toNat back) ++ insertion.replacement) :
    TiesCommute source ordered := by
  induction ordered with
  | nil => trivial
  | cons range others ih =>
      cases others with
      | nil => trivial
      | cons insertion back =>
          refine ⟨neighbours [] range insertion back rfl, ih ?_⟩
          intro front otherRange otherInsertion otherBack split
          exact neighbours (range :: front) otherRange otherInsertion otherBack
            (congrArg (List.cons range) split)

/-- Patches to the left of a common front are made alike, so they hide no difference. -/
private theorem eq_of_foldr_splice_eq {lead first second : Text} {front : List Patch}
    (fits : ∀ patch ∈ front, patch.FitsIn lead)
    (ascending : front.Pairwise fun earlier later => earlier.stop ≤ later.start)
    (same : front.foldr (fun patch text => text.splice patch) (lead ++ first) =
      front.foldr (fun patch text => text.splice patch) (lead ++ second)) :
    first = second := by
  have made (back : Text) : front.foldr (fun patch text => text.splice patch) (lead ++ back) =
      lead.patchwork 0 front ++ back := by
    have fitsWhole : ∀ patch ∈ front, patch.FitsIn (lead ++ back) := by
      intro patch member
      have inside := (fits patch member).stop_le_length
      refine ⟨(fits patch member).start_nonneg, (fits patch member).start_le_stop, ?_⟩
      rw [List.length_append]
      omega
    rw [Text.foldr_splice_eq_patchwork _ front 0 fitsWhole ascending
      (fun patch member => (fits patch member).start_nonneg),
      Text.patchwork_append back 0 front (Nat.zero_le _) fits]
    rfl
  rw [made first, made second] at same
  exact List.append_cancel_left same

/-- Swapping a range and an insertion behind it is another ranking of the patches. -/
private theorem byStop_swap {front back : List Patch} {range insertion : Patch}
    (tie : insertion.InsertsBehind range)
    (byStop : (front ++ range :: insertion :: back).Pairwise
      fun earlier later => earlier.stop ≤ later.stop) :
    (front ++ insertion :: range :: back).Pairwise
      fun earlier later => earlier.stop ≤ later.stop := by
  rcases List.pairwise_append.mp byStop with ⟨frontByStop, pairByStop, across⟩
  rcases List.pairwise_cons.mp pairByStop with ⟨behindRange, restByStop⟩
  rcases List.pairwise_cons.mp restByStop with ⟨behindInsertion, backByStop⟩
  have sameStop : insertion.stop = range.stop := tie.2
  apply List.pairwise_append.mpr
  refine ⟨frontByStop, List.pairwise_cons.mpr ⟨?_, List.pairwise_cons.mpr ⟨?_, backByStop⟩⟩, ?_⟩
  · intro later member
    rcases List.mem_cons.mp member with rfl | further
    · exact Int.le_of_eq sameStop
    · exact behindInsertion later further
  · intro later member
    exact behindRange later (List.mem_cons_of_mem insertion member)
  · intro earlier earlierMember later member
    apply across earlier earlierMember later
    simp only [List.mem_cons] at member ⊢
    rcases member with same | same | further
    · exact Or.inr (Or.inl same)
    · exact Or.inl same
    · exact Or.inr (Or.inr further)

/-- Two neighbours whose order does not show in the text commute. -/
private theorem commute_of_foldr_splice_eq {source : Text} {front back : List Patch}
    {range insertion : Patch}
    (listing : LeftToRight source (front ++ range :: insertion :: back))
    (tie : insertion.InsertsBehind range)
    (same : (front ++ insertion :: range :: back).foldr
        (fun patch text => text.splice patch) source =
      (front ++ range :: insertion :: back).foldr
        (fun patch text => text.splice patch) source) :
    insertion.replacement ++ range.slack (source.patchwork range.stop.toNat back) =
      range.slack (source.patchwork range.stop.toNat back) ++ insertion.replacement := by
  have pairListing : LeftToRight source (range :: insertion :: back) :=
    listing.sublist (List.sublist_append_right front _)
  have frontListing : LeftToRight source front :=
    listing.sublist (List.sublist_append_left front _)
  have rangeFits := pairListing.fits range (by simp)
  have insertionFits := pairListing.fits insertion (by simp)
  have untouched := foldr_splice_behind pairListing
  have inFront := (List.pairwise_append.mp listing.ascending).2.2
  have frontFits : ∀ patch ∈ front, patch.FitsIn (source.take range.start.toNat) := by
    intro patch member
    have beforeRange := inFront patch member range List.mem_cons_self
    have patchFits := frontListing.fits patch member
    refine ⟨patchFits.start_nonneg, patchFits.start_le_stop, ?_⟩
    have ordered := rangeFits.start_le_stop
    have within := rangeFits.stop_le_length
    have nonneg := rangeFits.start_nonneg
    rw [List.length_take]
    omega
  rw [List.foldr_append, List.foldr_append, List.foldr_cons, List.foldr_cons,
    List.foldr_cons, List.foldr_cons,
    splice_range_then_insertion rangeFits insertionFits tie untouched,
    splice_insertion_then_range rangeFits insertionFits tie untouched] at same
  exact (insert_eq_iff _ _ _ _).mp
    (eq_of_foldr_splice_eq frontFits frontListing.ascending same)

/--
For independent patches, the order in which they are given is irrelevant to the
repaired text exactly when all ties commute.
-/
theorem repair_text_order_irrelevant_iff (source : Text) (patches : List Patch)
    (independent : Independent source (patches.filter Patch.applicable)) :
    (∀ others : List Patch,
        (others.filter Patch.applicable).Perm (patches.filter Patch.applicable) →
        (repair source others).text = (repair source patches).text) ↔
      TiesCommute source (fromLeftToRight patches) := by
  have listing := leftToRight_fromLeftToRight independent
  have permuted := fromLeftToRight_perm patches
  constructor
  · intro irrelevant
    apply tiesCommute_of_neighbours
    intro front range insertion back split tie
    rw [split] at listing permuted
    have swapped : (front ++ insertion :: range :: back).Perm
        (patches.filter Patch.applicable) :=
      ((List.Perm.swap range insertion back).append_left front).trans permuted
    rcases repair_text_of_ranked independent permuted listing.byStop with ⟨samePatches, text⟩
    rcases repair_text_of_ranked independent swapped (byStop_swap tie listing.byStop) with
        ⟨samePatchesSwapped, textSwapped⟩
    apply commute_of_foldr_splice_eq listing tie
    rw [← text, ← textSwapped, irrelevant _ samePatches, irrelevant _ samePatchesSwapped]
  · intro ties
    have canonical (others : List Patch)
        (samePatches : (others.filter Patch.applicable).Perm
          (patches.filter Patch.applicable)) :
        (repair source others).text =
          (fromLeftToRight patches).foldr (fun patch text => text.splice patch) source := by
      rw [repair_text_of_independent (independent.perm samePatches.symm)]
      apply foldr_splice_eq_of_tiesCommute listing ?_ ?_ ties
      · exact List.pairwise_reverse.mpr (rankByKey_descending Patch.stop _)
      · exact ((List.reverse_perm _).trans (rankByKey_perm _ _)).trans
          (samePatches.trans permuted.symm)
    intro others samePatches
    rw [canonical others samePatches, canonical patches (List.Perm.refl _)]

/-- The range is made first and shortens the text, so the insertion behind it
lands one unit too far to the right; the other way round it does not. -/
theorem repair_text_depends_on_order :
    let range : Patch :=
      { code := "A", applicable := true, start := 0, stop := 2, replacement := "X" }
    let insertion : Patch :=
      { code := "B", applicable := true, start := 2, stop := 2, replacement := "Y" }
    Independent "abc" ([range, insertion].filter Patch.applicable) ∧
      ([insertion, range].filter Patch.applicable).Perm
        ([range, insertion].filter Patch.applicable) ∧
      (repair "abc" [range, insertion]).text = "XcY" ∧
      (repair "abc" [insertion, range]).text = "XYc" ∧
      (repair "abc" [insertion, range]).text ≠ (repair "abc" [range, insertion]).text := by
  refine ⟨⟨by decide, by decide, by decide⟩, List.Perm.swap _ _ _, ?_, ?_, ?_⟩
  · decide
  · decide
  · decide

/-- A replacement as wide as its range has no slack, so the insertion behind it
may come at any time. -/
theorem repair_text_of_wide_replacement :
    let range : Patch :=
      { code := "A", applicable := true, start := 0, stop := 2, replacement := "XY" }
    let insertion : Patch :=
      { code := "B", applicable := true, start := 2, stop := 2, replacement := "!" }
    Independent "abc" ([range, insertion].filter Patch.applicable) ∧
      ∀ others : List Patch,
        (others.filter Patch.applicable).Perm ([range, insertion].filter Patch.applicable) →
        (repair "abc" others).text = "XY!c" := by
  refine ⟨⟨by decide, by decide, by decide⟩, ?_⟩
  intro others samePatches
  have irrelevant := (repair_text_order_irrelevant_iff "abc"
    [{ code := "A", applicable := true, start := 0, stop := 2, replacement := "XY" },
      { code := "B", applicable := true, start := 2, stop := 2, replacement := "!" }]
    ⟨by decide, by decide, by decide⟩).mpr (by decide)
  exact (irrelevant others samePatches).trans (by decide)

end JuliaLint

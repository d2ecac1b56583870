import JuliaLint.Repair

namespace JuliaLint

/-!
# Repairs as simultaneous substitutions

A repair makes its patches one after the other, and each splice reads offsets
of the source on a text whose length earlier splices have already changed.
The patchwork of a source reads every offset in the source itself: between two
patches it copies the source, and in the place of each patch it puts the
replacement.  The two agree because patches are made from right to left, so
that the part of the source up to the start of the last patch made is still
untouched when the next one, which stops inside that part, is made.

The kept patches come in this order by the ranking and the overlap test
together.  Neither suffices alone: the ranking only compares right ends, and
the overlap test accepts patches on either side.
-/

namespace Patch

/-- The patch replaces a stretch of the text, possibly an empty one. -/
structure FitsIn (text : Text) (patch : Patch) : Prop where
  start_nonneg : 0 ≤ patch.start
  start_le_stop : patch.start ≤ patch.stop
  stop_le_length : patch.stop ≤ text.length

theorem overlaps_eq_false_iff {first second : Patch} :
    first.overlaps second = false ↔
      second.stop ≤ first.start ∨ first.stop ≤ second.start := by
  unfold overlaps
  rw [Bool.and_eq_false_iff, decide_eq_false_iff_not, decide_eq_false_iff_not,
    Int.not_lt, Int.not_lt]

end Patch

namespace Text

/--
The source from a place on, with every replacement in the place of its patch.
All offsets are offsets of the source.
-/
def patchwork (source : Text) : (place : Nat) → List Patch → Text
  | place, [] => source.drop place
  | place, patch :: patches =>
      (source.take patch.start.toNat).drop place ++ patch.replacement ++
        patchwork source patch.stop.toNat patches

theorem take_append_patchwork_nil (source : Text) (place : Nat) :
    source.take place ++ source.patchwork place [] = source :=
  List.take_append_drop place source

theorem take_append_patchwork_cons (source : Text) {place : Nat} {patch : Patch}
    (patches : List Patch) (beyond : place ≤ patch.start.toNat) :
    source.take place ++ source.patchwork place (patch :: patches) =
      source.take patch.start.toNat ++ patch.replacement ++
        source.patchwork patch.stop.toNat patches := by
  have upToStart : source.take place ++ (source.take patch.start.toNat).drop place =
      source.take patch.start.toNat := by
    have split := List.take_append_drop place (source.take patch.start.toNat)
    rw [List.take_take, Nat.min_eq_left beyond] at split
    exact split
  rw [patchwork, ← List.append_assoc, ← List.append_assoc, upToStart]

/-- Patches inside the front of a text leave alone what follows it. -/
theorem patchwork_append {front : Text} (back : Text) (place : Nat) (patches : List Patch)
    (within : place ≤ front.length) (fits : ∀ patch ∈ patches, patch.FitsIn front) :
    patchwork (front ++ back) place patches = front.patchwork place patches ++ back := by
  induction patches generalizing place with
  | nil => exact List.drop_append_of_le_length within
  | cons patch patches ih =>
      have patchFits := fits patch List.mem_cons_self
      have ordered := patchFits.start_le_stop
      have inside := patchFits.stop_le_length
      have rest := ih patch.stop.toNat (by omega)
        (fun later member => fits later (List.mem_cons_of_mem patch member))
      rw [patchwork, patchwork, rest, List.take_append_of_le_length (by omega)]
      simp only [List.append_assoc]

/-! ## One splice -/

theorem cutPoint_of_nonneg (text : Text) {index : Int} (nonneg : 0 ≤ index) :
    text.cutPoint index = min index.toNat text.length := by
  unfold cutPoint
  rw [if_neg (Int.not_lt.mpr nonneg)]

/-- A splice between offsets that are not negative cuts the text at them. -/
theorem splice_of_nonneg (text : Text) {patch : Patch}
    (startNonneg : 0 ≤ patch.start) (stopNonneg : 0 ≤ patch.stop) :
    text.splice patch =
      text.take patch.start.toNat ++ patch.replacement ++ text.drop patch.stop.toNat := by
  have takeCut (count : Nat) : text.take (min count text.length) = text.take count := by
    rw [← List.take_eq_take_min]
  have dropCut (count : Nat) : text.drop (min count text.length) = text.drop count := by
    rw [← List.drop_eq_drop_min]
  rw [splice, cutPoint_of_nonneg text startNonneg, cutPoint_of_nonneg text stopNonneg,
    takeCut, dropCut]

/-- On a text that starts with the source up to the stop of a patch, the splice
reads the offsets of the source. -/
theorem splice_take_append {source : Text} (rest : Text) {patch : Patch}
    (fits : patch.FitsIn source) :
    splice (source.take patch.stop.toNat ++ rest) patch =
      source.take patch.start.toNat ++ patch.replacement ++ rest := by
  have ordered := fits.start_le_stop
  have inside := fits.stop_le_length
  have stopNonneg : 0 ≤ patch.stop := Int.le_trans fits.start_nonneg ordered
  have untouched : (source.take patch.stop.toNat).length = patch.stop.toNat := by
    rw [List.length_take]
    omega
  have startBefore : patch.start.toNat ≤ (source.take patch.stop.toNat).length := by
    omega
  rw [splice_of_nonneg _ fits.start_nonneg stopNonneg,
    List.take_append_of_le_length startBefore, List.take_take,
    Nat.min_eq_left (Int.toNat_le_toNat ordered), List.drop_left' untouched]

/-! ## Splices from right to left -/

/--
Making ascending patches from the last to the first gives the patchwork.  The
induction shows in addition that the source is untouched in front of them all,
which is what the next patch to the left needs.
-/
theorem foldr_splice_eq_patchwork (source : Text) (patches : List Patch) (place : Nat)
    (fits : ∀ patch ∈ patches, patch.FitsIn source)
    (ascending : patches.Pairwise fun earlier later => earlier.stop ≤ later.start)
    (beyond : ∀ patch ∈ patches, (place : Int) ≤ patch.start) :
    patches.foldr (fun patch text => text.splice patch) source =
      source.take place ++ source.patchwork place patches := by
  induction patches generalizing place with
  | nil => exact (take_append_patchwork_nil source place).symm
  | cons patch patches ih =>
      have patchFits := fits patch List.mem_cons_self
      rcases List.pairwise_cons.mp ascending with ⟨behindPatch, restAscending⟩
      have restFits : ∀ later ∈ patches, later.FitsIn source :=
        fun later member => fits later (List.mem_cons_of_mem patch member)
      have restBeyond : ∀ later ∈ patches, (patch.stop.toNat : Int) ≤ later.start := by
        intro later member
        have behind := behindPatch later member
        have laterNonneg := (restFits later member).start_nonneg
        omega
      have startBeyond : place ≤ patch.start.toNat := by
        have patchBeyond := beyond patch List.mem_cons_self
        omega
      rw [List.foldr_cons, ih _ restFits restAscending restBeyond,
        splice_take_append _ patchFits, take_append_patchwork_cons source patches startBeyond]

theorem foldl_splice_eq_patchwork (source : Text) (patches : List Patch)
    (fits : ∀ patch ∈ patches, patch.FitsIn source)
    (ascending : patches.Pairwise fun earlier later => earlier.stop ≤ later.start) :
    patches.reverse.foldl Text.splice source = source.patchwork 0 patches := by
  have made := foldr_splice_eq_patchwork source patches 0 fits ascending
    (fun patch member => (fits patch member).start_nonneg)
  rw [List.foldl_reverse]
  simpa using made

end Text

/-! ## The kept patches -/

/-- Sifting only leaves patches out. -/
theorem sift_kept_sublist (before patches : List Patch) :
    (sift before patches).kept.Sublist patches := by
  induction patches generalizing before with
  | nil => exact List.Sublist.slnil
  | cons patch patches ih =>
      rw [sift]
      split
      · exact (ih before).cons patch
      · exact (ih (patch :: before)).cons_cons patch

/-- No kept patch overlaps one that was kept earlier. -/
theorem sift_kept_apart (before patches : List Patch) :
    (sift before patches).kept.Pairwise
        (fun earlier later => later.overlaps earlier = false) ∧
      ∀ patch ∈ (sift before patches).kept, ∀ earlier ∈ before,
        patch.overlaps earlier = false := by
  induction patches generalizing before with
  | nil => exact ⟨List.Pairwise.nil, fun patch member => absurd member List.not_mem_nil⟩
  | cons patch patches ih =>
      rw [sift]
      split
      · exact ih before
      · next free =>
        rcases ih (patch :: before) with ⟨keptApart, awayFromBefore⟩
        refine ⟨List.pairwise_cons.mpr ⟨?_, keptApart⟩, ?_⟩
        · intro later member
          exact awayFromBefore later member patch List.mem_cons_self
        · intro kept member earlier earlierMember
          rcases List.mem_cons.mp member with rfl | later
          · have notOverlapping := List.any_eq_false.mp (Bool.eq_false_iff.mpr free)
            exact Bool.eq_false_iff.mpr (notOverlapping earlier earlierMember)
          · exact awayFromBefore kept later earlier (List.mem_cons_of_mem patch earlierMember)

/-- Patches that do not overlap are all kept. -/
theorem sift_of_apart (before patches : List Patch)
    (apart : patches.Pairwise fun earlier later => later.overlaps earlier = false)
    (away : ∀ patch ∈ patches, ∀ earlier ∈ before, patch.overlaps earlier = false) :
    sift before patches = { kept := patches, skipped := [] } := by
  induction patches generalizing before with
  | nil => rfl
  | cons patch patches ih =>
      rcases List.pairwise_cons.mp apart with ⟨awayFromPatch, restApart⟩
      have free : before.any patch.overlaps = false := by
        apply List.any_eq_false.mpr
        intro earlier member
        exact Bool.eq_false_iff.mp (away patch List.mem_cons_self earlier member)
      have rest := ih (patch :: before) restApart (by
        intro later member earlier earlierMember
        rcases List.mem_cons.mp earlierMember with rfl | inBefore
        · exact awayFromPatch later member
        · exact away later (List.mem_cons_of_mem patch member) earlier inBefore)
      rw [sift, free, rest]
      rfl

theorem mem_rankPatches {patches : List Patch} {patch : Patch} :
    patch ∈ rankPatches patches ↔ patch ∈ patches ∧ patch.applicable = true := by
  rw [rankPatches, (rankByKey_perm Patch.stop _).mem_iff, List.mem_filter]

/-- A repair by patches that do not overlap makes them all, in their ranking. -/
theorem repair_of_apart (source : Text) {patches : List Patch}
    (apart : (patches.filter Patch.applicable).Pairwise
      fun first second => first.overlaps second = false) :
    repair source patches =
      { text := (rankPatches patches).foldl Text.splice source
        applied := rankPatches patches
        skipped := [] } := by
  have rankedApart : (rankPatches patches).Pairwise
      fun earlier later => later.overlaps earlier = false := by
    apply (rankByKey_perm Patch.stop _).symm.pairwise
    · exact apart.imp fun disjoint => (Patch.overlaps_comm _ _).trans disjoint
    · exact fun disjoint => (Patch.overlaps_comm _ _).trans disjoint
  have allKept := sift_of_apart [] (rankPatches patches) rankedApart
    (fun patch member earlier impossible => absurd impossible List.not_mem_nil)
  rw [repair, allKept]

private theorem insertByKey_of_lt {α : Type} {key : α → Int} {element : α} {others : List α}
    (smallest : ∀ other ∈ others, key element < key other) :
    insertByKey key element others = others ++ [element] := by
  induction others with
  | nil => rfl
  | cons other others ih =>
      have larger := smallest other List.mem_cons_self
      have rest := ih fun later member => smallest later (List.mem_cons_of_mem other member)
      rw [insertByKey, if_neg (Int.not_le.mpr larger), rest, List.cons_append]

/-- Ranking a list whose keys increase turns it around. -/
private theorem rankByKey_of_ascending {α : Type} {key : α → Int} {elements : List α}
    (ascending : elements.Pairwise fun earlier later => key earlier < key later) :
    rankByKey key elements = elements.reverse := by
  induction elements with
  | nil => rfl
  | cons element others ih =>
      rcases List.pairwise_cons.mp ascending with ⟨smallest, restAscending⟩
      rw [rankByKey, ih restAscending, List.reverse_cons]
      apply insertByKey_of_lt
      intro other member
      exact smallest other (List.mem_reverse.mp member)

/-- Ascending patches are all made, and the repaired text is their patchwork. -/
theorem repair_of_ascending (source : Text) (patches : List Patch)
    (applicable : ∀ patch ∈ patches, patch.applicable = true)
    (inside : ∀ patch ∈ patches,
      0 ≤ patch.start ∧ patch.start < patch.stop ∧ patch.stop ≤ source.length)
    (ascending : patches.Pairwise fun earlier later => earlier.stop ≤ later.start) :
    repair source patches =
      { text := source.patchwork 0 patches, applied := patches.reverse, skipped := [] } := by
  have allApplicable : patches.filter Patch.applicable = patches :=
    List.filter_eq_self.mpr applicable
  have apart : patches.Pairwise fun first second => first.overlaps second = false :=
    ascending.imp fun behind => Patch.overlaps_eq_false_iff.mpr (Or.inr behind)
  have ranking : rankPatches patches = patches.reverse := by
    rw [rankPatches, allApplicable]
    apply rankByKey_of_ascending
    refine ascending.imp_of_mem ?_
    intro earlier later _ laterMember behind
    have nonempty := (inside later laterMember).2.1
    omega
  have fits : ∀ patch ∈ patches, patch.FitsIn source := by
    intro patch member
    rcases inside patch member with ⟨nonneg, nonempty, within⟩
    exact ⟨nonneg, Int.le_of_lt nonempty, within⟩
  rw [repair_of_apart source (allApplicable.symm ▸ apart), ranking,
    Text.foldl_splice_eq_patchwork source patches fits ascending]

theorem mem_of_mem_kept {patches : List Patch} {patch : Patch}
    (kept : patch ∈ (sift [] (rankPatches patches)).kept) :
    patch ∈ patches ∧ patch.applicable = true :=
  mem_rankPatches.mp ((sift_kept_sublist [] (rankPatches patches)).subset kept)

/-- Of two kept patches that are not empty, the one kept later lies to the left. -/
private theorem kept_descending {patches : List Patch}
    (nonempty : ∀ patch ∈ patches, patch.applicable = true → patch.start < patch.stop) :
    (sift [] (rankPatches patches)).kept.Pairwise
      fun earlier later => later.stop ≤ earlier.start := by
  have ranked : (sift [] (rankPatches patches)).kept.Pairwise
      fun earlier later => later.stop ≤ earlier.stop :=
    (rankByKey_descending Patch.stop _).sublist (sift_kept_sublist [] (rankPatches patches))
  have apart := (sift_kept_apart [] (rankPatches patches)).1
  refine (ranked.and apart).imp_of_mem ?_
  intro earlier later earlierKept laterKept both
  rcases both with ⟨stopsNoLater, disjoint⟩
  rcases mem_of_mem_kept laterKept with ⟨listed, applicable⟩
  have laterNonempty := nonempty later listed applicable
  rcases Patch.overlaps_eq_false_iff.mp disjoint with toTheRight | toTheLeft
  · omega
  · exact toTheLeft

/--
A repair by patches inside the source is the simultaneous substitution of the
kept ones.  Read from the last kept to the first they ascend without touching
each other's stretches, and every offset is an offset of the source.
-/
theorem repair_text_eq_patchwork (source : Text) (patches : List Patch)
    (inside : ∀ patch ∈ patches, patch.applicable = true →
      0 ≤ patch.start ∧ patch.start < patch.stop ∧ patch.stop ≤ source.length) :
    let ordered := (sift [] (rankPatches patches)).kept.reverse
    ordered.Pairwise (fun earlier later => earlier.start < later.start) ∧
      ordered.Pairwise (fun earlier later => earlier.stop ≤ later.start) ∧
      (repair source patches).applied.length = ordered.length ∧
      (repair source patches).text = source.patchwork 0 ordered := by
  intro ordered
  have keptInside : ∀ patch ∈ ordered,
      0 ≤ patch.start ∧ patch.start < patch.stop ∧ patch.stop ≤ source.length := by
    intro patch member
    rcases mem_of_mem_kept (List.mem_reverse.mp member) with ⟨listed, applicable⟩
    exact inside patch listed applicable
  have ascending : ordered.Pairwise fun earlier later => earlier.stop ≤ later.start :=
    List.pairwise_reverse.mpr
      (kept_descending fun patch listed applicable => (inside patch listed applicable).2.1)
  have fits : ∀ patch ∈ ordered, patch.FitsIn source := by
    intro patch member
    rcases keptInside patch member with ⟨nonneg, nonempty, within⟩
    exact ⟨nonneg, Int.le_of_lt nonempty, within⟩
  refine ⟨?_, ascending, ?_, ?_⟩
  · refine ascending.imp_of_mem ?_
    intro earlier later earlierMember _ behind
    have nonempty := (keptInside earlier earlierMember).2.1
    omega
  · exact (List.length_reverse).symm
  · have made := Text.foldl_splice_eq_patchwork source ordered fits ascending
    rw [List.reverse_reverse] at made
    exact made

/-- Two of the patches overlap and one is not applicable; the two that are kept
change the length of the text, the right one before the left one. -/
theorem repair_text_of_overlapping_patches :
    let source : Text := "abcdef"
    let patches : List Patch :=
      [{ code := "A", applicable := true, start := 1, stop := 3, replacement := "XYZ" },
        { code := "B", applicable := true, start := 2, stop := 5, replacement := "" },
        { code := "C", applicable := true, start := 4, stop := 6, replacement := "w" },
        { code := "D", applicable := false, start := -1, stop := 9, replacement := "v" }]
    (∀ patch ∈ patches, patch.applicable = true →
      0 ≤ patch.start ∧ patch.start < patch.stop ∧ patch.stop ≤ source.length) ∧
    (repair source patches).applied.length = 2 ∧
    (repair source patches).text = "aXYZdw" := by
  refine ⟨by decide, ?_, ?_⟩
  · exact (repair_text_eq_patchwork _ _ (by decide)).2.2.1.trans (by decide)
  · exact (repair_text_eq_patchwork _ _ (by decide)).2.2.2.trans (by decide)

end JuliaLint

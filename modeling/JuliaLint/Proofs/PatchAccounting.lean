import JuliaLint.Proofs.Patchwork

namespace JuliaLint

/-!
# Every patch is accounted for

The offsets of a patch may be any integers, so a range can be empty, inverted or
outside the text.  What a repair makes of such a range is a matter of splicing,
but which patches it makes is not: the applicable ones are ranked, and each gets
a verdict that depends on the verdicts in front of it alone.  A patch is skipped
exactly if it overlaps one that stands before it in the ranking and is kept.

Both the ranking and the verdicts are described here without the functions that
compute them.  Each description leaves only one list, so together they say which
patches a repair makes, which it skips and in what order it reports them.
-/

/-! ## The ranking -/

section Ranking

variable {α : Type} {key : α → Int} {elements ranked others : List α}

/-- The elements by descending key, where equal keys keep the order given. -/
structure IsRanking (key : α → Int) (elements ranked : List α) : Prop where
  descending : ranked.Pairwise fun earlier later => key later ≤ key earlier
  stable : ∀ wanted, ranked.filter (fun element => key element = wanted) =
    elements.filter (fun element => key element = wanted)

theorem isRanking_rankByKey (key : α → Int) (elements : List α) :
    IsRanking key elements (rankByKey key elements) :=
  ⟨rankByKey_descending key elements, filter_rankByKey key elements⟩

private theorem mem_of_filter_eq
    (same : ∀ wanted, ranked.filter (fun element => key element = wanted) =
      others.filter (fun element => key element = wanted))
    {element : α} (member : element ∈ ranked) : element ∈ others := by
  have kept : element ∈ ranked.filter (fun other => key other = key element) :=
    List.mem_filter.mpr ⟨member, decide_eq_true rfl⟩
  rw [same] at kept
  exact (List.mem_filter.mp kept).1

private theorem key_le_head {element other : α}
    (descending : (element :: ranked).Pairwise fun earlier later => key later ≤ key earlier)
    (member : other ∈ element :: ranked) : key other ≤ key element := by
  rcases List.mem_cons.mp member with rfl | later
  · exact Int.le_refl _
  · exact (List.pairwise_cons.mp descending).1 other later

/-- The keys decide the order between groups, and the groups are given. -/
private theorem eq_of_filter_eq
    (descending : ranked.Pairwise fun earlier later => key later ≤ key earlier)
    (othersDescending : others.Pairwise fun earlier later => key later ≤ key earlier)
    (same : ∀ wanted, ranked.filter (fun element => key element = wanted) =
      others.filter (fun element => key element = wanted)) : ranked = others := by
  have back : ∀ wanted, others.filter (fun element => key element = wanted) =
      ranked.filter (fun element => key element = wanted) :=
    fun wanted => (same wanted).symm
  induction ranked generalizing others with
  | nil =>
      cases others with
      | nil => rfl
      | cons other others => cases mem_of_filter_eq back List.mem_cons_self
  | cons element ranked ih =>
      cases others with
      | nil => cases mem_of_filter_eq same List.mem_cons_self
      | cons other others =>
          have sameKey : key other = key element :=
            Int.le_antisymm
              (key_le_head descending (mem_of_filter_eq back List.mem_cons_self))
              (key_le_head othersDescending (mem_of_filter_eq same List.mem_cons_self))
          have sameHead : element = other := by
            have heads := congrArg List.head? (same (key element))
            rw [List.filter_cons_of_pos (by simp), List.filter_cons_of_pos (by simpa using sameKey)]
              at heads
            exact Option.some.inj heads
          subst sameHead
          have sameRest : ∀ wanted, ranked.filter (fun element => key element = wanted) =
              others.filter (fun element => key element = wanted) := by
            intro wanted
            have groups := same wanted
            rw [List.filter_cons, List.filter_cons] at groups
            split at groups
            · exact (List.cons.inj groups).2
            · exact groups
          rw [ih descending.of_cons othersDescending.of_cons sameRest
            fun wanted => (sameRest wanted).symm]

theorem IsRanking.unique (one : IsRanking key elements ranked)
    (other : IsRanking key elements others) : ranked = others :=
  eq_of_filter_eq one.descending other.descending fun wanted =>
    (one.stable wanted).trans (other.stable wanted).symm

end Ranking

/-! ## The verdicts -/

/--
Whether each patch of a ranking is kept, when those in `front` were judged
before.  A patch is skipped exactly if it overlaps a kept one in front of it.
-/
def JudgedBehind (front verdicts : List (Patch × Bool)) : Prop :=
  ∀ passed patch kept later, verdicts = passed ++ (patch, kept) :: later →
    (kept = false ↔
      ∃ earlier, (earlier, true) ∈ front ++ passed ∧ patch.overlaps earlier = true)

/-- A verdict on every patch of the ranking, in its order. -/
structure Judges (ranked : List Patch) (verdicts : List (Patch × Bool)) : Prop where
  covers : verdicts.map Prod.fst = ranked
  judged : JudgedBehind [] verdicts

def patchesWith (kept : Bool) (verdicts : List (Patch × Bool)) : List Patch :=
  (verdicts.filter fun verdict => verdict.2 == kept).map Prod.fst

section Verdicts

variable {front verdicts others : List (Patch × Bool)} {patch : Patch} {kept : Bool}

/-- Judging goes on behind a verdict that is right. -/
theorem judgedBehind_cons_iff :
    JudgedBehind front ((patch, kept) :: verdicts) ↔
      (kept = false ↔ ∃ earlier, (earlier, true) ∈ front ∧ patch.overlaps earlier = true) ∧
        JudgedBehind (front ++ [(patch, kept)]) verdicts := by
  constructor
  · intro judged
    constructor
    · have here := judged [] patch kept verdicts rfl
      rwa [List.append_nil] at here
    · intro passed other otherKept later split
      have there := judged ((patch, kept) :: passed) other otherKept later
        (congrArg (List.cons (patch, kept)) split)
      rwa [List.append_assoc, List.singleton_append]
  · rintro ⟨here, behind⟩ passed other otherKept later split
    cases passed with
    | nil =>
        cases split
        rwa [List.append_nil]
    | cons first passed =>
        rcases List.cons.inj split with ⟨rfl, laterSplit⟩
        have there := behind passed other otherKept later laterSplit
        rwa [List.append_assoc, List.singleton_append] at there

theorem JudgedBehind.unique (one : JudgedBehind front verdicts) (other : JudgedBehind front others)
    (samePatches : verdicts.map Prod.fst = others.map Prod.fst) : verdicts = others := by
  induction verdicts generalizing front others with
  | nil => exact (List.map_eq_nil_iff.mp samePatches.symm).symm
  | cons verdict verdicts ih =>
      cases others with
      | nil => cases samePatches
      | cons otherVerdict others =>
          rcases verdict with ⟨patch, kept⟩
          rcases otherVerdict with ⟨otherPatch, otherKept⟩
          rcases List.cons.inj samePatches with ⟨rfl, restPatches⟩
          rcases judgedBehind_cons_iff.mp one with ⟨here, behind⟩
          rcases judgedBehind_cons_iff.mp other with ⟨otherHere, otherBehind⟩
          have sameVerdict : kept = otherKept := by
            have skippedAlike : kept = false ↔ otherKept = false := here.trans otherHere.symm
            cases kept <;> cases otherKept <;> simp_all
          subst sameVerdict
          rw [ih behind otherBehind restPatches]

theorem Judges.unique {ranked : List Patch} (one : Judges ranked verdicts)
    (other : Judges ranked others) : verdicts = others :=
  one.judged.unique other.judged (one.covers.trans other.covers.symm)

end Verdicts

/-- Sifting keeps and skips by verdicts that are right. -/
theorem exists_verdicts_of_sift (front : List (Patch × Bool)) (before patches : List Patch)
    (same : ∀ patch, patch ∈ before ↔ (patch, true) ∈ front) :
    ∃ verdicts, verdicts.map Prod.fst = patches ∧ JudgedBehind front verdicts ∧
      (sift before patches).kept = patchesWith true verdicts ∧
      (sift before patches).skipped = patchesWith false verdicts := by
  induction patches generalizing front before with
  | nil =>
      refine ⟨[], rfl, ?_, rfl, rfl⟩
      intro passed patch kept later split
      cases List.nil_eq_append_iff.mp split |>.2
  | cons patch patches ih =>
      have meets : before.any patch.overlaps = true ↔
          ∃ earlier, (earlier, true) ∈ front ∧ patch.overlaps earlier = true := by
        simp only [List.any_eq_true, same]
      rw [sift]
      split
      · next overlapping =>
        have stillSame : ∀ other, other ∈ before ↔ (other, true) ∈ front ++ [(patch, false)] := by
          intro other
          simp [same]
        rcases ih _ before stillSame with ⟨verdicts, covers, judged, keptOnes, skippedOnes⟩
        refine ⟨(patch, false) :: verdicts, ?_, ?_, ?_, ?_⟩
        · rw [List.map_cons, covers]
        · exact judgedBehind_cons_iff.mpr ⟨iff_of_true rfl (meets.mp overlapping), judged⟩
        · exact keptOnes
        · exact congrArg (List.cons patch) skippedOnes
      · next free =>
        have nowSame : ∀ other,
            other ∈ patch :: before ↔ (other, true) ∈ front ++ [(patch, true)] := by
          intro other
          simp [same, or_comm]
        rcases ih _ (patch :: before) nowSame with ⟨verdicts, covers, judged, keptOnes, skippedOnes⟩
        refine ⟨(patch, true) :: verdicts, ?_, ?_, ?_, ?_⟩
        · rw [List.map_cons, covers]
        · refine judgedBehind_cons_iff.mpr ⟨iff_of_false Bool.noConfusion ?_, judged⟩
          exact fun overlapping => free (meets.mpr overlapping)
        · exact congrArg (List.cons patch) keptOnes
        · exact skippedOnes

/-- No two kept patches overlap, whichever of them comes first. -/
theorem applied_repair_apart (source : Text) (patches : List Patch) :
    (repair source patches).applied.Pairwise fun first second =>
      first.overlaps second = false ∧ second.overlaps first = false := by
  refine (sift_kept_apart [] (rankPatches patches)).1.imp ?_
  intro first second apart
  exact ⟨(first.overlaps_comm second).trans apart, apart⟩

/-- Patches that are not applicable make no difference. -/
theorem repair_congr_of_applicable (source : Text) {patches others : List Patch}
    (same : others.filter Patch.applicable = patches.filter Patch.applicable) :
    repair source others = repair source patches := by
  unfold repair rankPatches
  rw [same]

/--
Whatever the offsets, a repair accounts for every applicable patch.  There is one
ranking of them, by descending right end with ties in the order given, and one
list of verdicts on it, by which a patch is skipped exactly if it overlaps a kept
one that precedes it.  The patches made and those skipped are the kept and the
skipped ones in the order of the ranking; there are no others, and each skipped
one is reported under its code.  No two of the patches made overlap, and patches
that are not applicable influence nothing.
-/
theorem repair_accounts_for_patches (source : Text) (patches : List Patch) :
    ∃ ranked verdicts,
      IsRanking Patch.stop (patches.filter Patch.applicable) ranked ∧
      (∀ others, IsRanking Patch.stop (patches.filter Patch.applicable) others →
        others = ranked) ∧
      Judges ranked verdicts ∧
      (∀ others, Judges ranked others → others = verdicts) ∧
      (repair source patches).applied = patchesWith true verdicts ∧
      (repair source patches).skipped = patchesWith false verdicts ∧
      (repair source patches).applied.length + (repair source patches).skipped.length =
        ranked.length ∧
      (repair source patches).reasons.length = (repair source patches).skipped.length ∧
      (repair source patches).reasons = (patchesWith false verdicts).map (fun patch =>
        (patch.code, Text.ofString "Fix range overlaps with another fix")) ∧
      (repair source patches).applied.Pairwise (fun first second =>
        first.overlaps second = false ∧ second.overlaps first = false) ∧
      ∀ others : List Patch,
        others.filter Patch.applicable = patches.filter Patch.applicable →
          repair source others = repair source patches := by
  have ranking : IsRanking Patch.stop (patches.filter Patch.applicable) (rankPatches patches) :=
    isRanking_rankByKey Patch.stop _
  rcases exists_verdicts_of_sift [] [] (rankPatches patches) (fun patch => by simp) with
    ⟨verdicts, covers, judged, keptOnes, skippedOnes⟩
  have judges : Judges (rankPatches patches) verdicts := ⟨covers, judged⟩
  refine ⟨rankPatches patches, verdicts, ranking, fun others other => other.unique ranking, judges,
    fun others other => other.unique judges, keptOnes, skippedOnes,
    length_kept_add_length_skipped [] (rankPatches patches), List.length_map _, ?_,
    applied_repair_apart source patches, fun others same => repair_congr_of_applicable source same⟩
  exact congrArg (List.map fun patch : Patch => (patch.code, Repair.skipReason)) skippedOnes

/-- An inverted range around a kept one overlaps nothing, and one inside it is skipped. -/
example :
    (repair "abcdef"
      [{ code := "A", applicable := true, start := 1, stop := 5, replacement := "" },
        { code := "B", applicable := true, start := 5, stop := 1, replacement := "" },
        { code := "C", applicable := true, start := 4, stop := 2, replacement := "" },
        { code := "D", applicable := false, start := 0, stop := 6, replacement := "" }]).reasons =
      [("C", Repair.skipReason)] := by
  decide

end JuliaLint

namespace JuliaLint

/-!
Ranking a list by an integer key, largest first.  Elements with equal keys keep
the order in which they were given.  The ranking is a permutation of the list
and its keys never increase.
-/

variable {α : Type}

/-- Puts an element in front of the first one whose key is no larger. -/
def insertByKey (key : α → Int) (element : α) : List α → List α
  | [] => [element]
  | other :: others =>
      if key other ≤ key element then
        element :: other :: others
      else
        other :: insertByKey key element others

/-- The list by descending key; equal keys keep their order. -/
def rankByKey (key : α → Int) : List α → List α
  | [] => []
  | element :: others => insertByKey key element (rankByKey key others)

theorem insertByKey_perm (key : α → Int) (element : α) (others : List α) :
    (insertByKey key element others).Perm (element :: others) := by
  induction others with
  | nil => exact List.Perm.refl _
  | cons other others ih =>
      rw [insertByKey]
      split
      · exact List.Perm.refl _
      · exact (ih.cons other).trans (List.Perm.swap element other others)

/-- Ranking keeps every element as often as it was given. -/
theorem rankByKey_perm (key : α → Int) (elements : List α) :
    (rankByKey key elements).Perm elements := by
  induction elements with
  | nil => exact List.Perm.refl _
  | cons element others ih =>
      exact (insertByKey_perm key element _).trans (ih.cons element)

private theorem insertByKey_descending {key : α → Int} {element : α} {others : List α}
    (descending : others.Pairwise fun earlier later => key later ≤ key earlier) :
    (insertByKey key element others).Pairwise
      fun earlier later => key later ≤ key earlier := by
  induction others with
  | nil => exact List.pairwise_singleton ..
  | cons other others ih =>
      obtain ⟨first, rest⟩ := List.pairwise_cons.mp descending
      rw [insertByKey]
      split
      · next smaller =>
        refine List.pairwise_cons.mpr ⟨fun later member => ?_, descending⟩
        rcases List.mem_cons.mp member with rfl | behind
        · exact smaller
        · exact Int.le_trans (first later behind) smaller
      · next larger =>
        refine List.pairwise_cons.mpr ⟨fun later member => ?_, ih rest⟩
        rcases List.mem_cons.mp ((insertByKey_perm key element others).mem_iff.mp member) with
          rfl | behind
        · omega
        · exact first later behind

/-- The keys of a ranking never increase. -/
theorem rankByKey_descending (key : α → Int) (elements : List α) :
    (rankByKey key elements).Pairwise fun earlier later => key later ≤ key earlier := by
  induction elements with
  | nil => exact List.Pairwise.nil
  | cons element others ih => exact insertByKey_descending ih

private theorem filter_insertByKey (key : α → Int) (element : α) (others : List α)
    (wanted : Int) :
    (insertByKey key element others).filter (fun other => key other = wanted) =
      (element :: others).filter (fun other => key other = wanted) := by
  induction others with
  | nil => rfl
  | cons other others ih =>
      rw [insertByKey]
      split
      · rfl
      · next larger =>
        rw [List.filter_cons, ih]
        by_cases elementWanted : key element = wanted
        · have otherUnwanted : ¬key other = wanted := by omega
          simp [elementWanted, otherUnwanted]
        · simp [List.filter_cons, elementWanted]

/-- Elements that share a key stand in the ranking as they were given. -/
theorem filter_rankByKey (key : α → Int) (elements : List α) (wanted : Int) :
    (rankByKey key elements).filter (fun element => key element = wanted) =
      elements.filter (fun element => key element = wanted) := by
  induction elements with
  | nil => rfl
  | cons element others ih =>
      rw [rankByKey, filter_insertByKey, List.filter_cons, List.filter_cons, ih]

private theorem pairwise_of_groups {key : α → Int} {before : α → α → Prop} {ranked : List α}
    (descending : ranked.Pairwise fun earlier later => key later ≤ key earlier)
    (grouped : ∀ wanted, (ranked.filter fun element => key element = wanted).Pairwise before) :
    ranked.Pairwise fun earlier later =>
      key later < key earlier ∨ key later = key earlier ∧ before earlier later := by
  induction ranked with
  | nil => exact List.Pairwise.nil
  | cons element ranked ih =>
      obtain ⟨first, rest⟩ := List.pairwise_cons.mp descending
      have laterGroups : ∀ wanted,
          (ranked.filter fun element => key element = wanted).Pairwise before := by
        intro wanted
        exact (grouped wanted).sublist ((List.sublist_cons_self element ranked).filter _)
      refine List.pairwise_cons.mpr ⟨fun later member => ?_, ih rest laterGroups⟩
      rcases Int.lt_or_eq_of_le (first later member) with smaller | same
      · exact Or.inl smaller
      · have group := grouped (key element)
        rw [List.filter_cons_of_pos (by simp)] at group
        refine Or.inr ⟨same, (List.pairwise_cons.mp group).1 later ?_⟩
        exact List.mem_filter.mpr ⟨member, decide_eq_true same⟩

/-- Between equal keys the order in which the elements were given remains. -/
theorem rankByKey_pairwise (key : α → Int) {before : α → α → Prop} {elements : List α}
    (given : elements.Pairwise before) :
    (rankByKey key elements).Pairwise fun earlier later =>
      key later < key earlier ∨ key later = key earlier ∧ before earlier later := by
  have grouped : ∀ wanted,
      ((rankByKey key elements).filter fun element => key element = wanted).Pairwise before := by
    intro wanted
    rw [filter_rankByKey]
    exact given.filter _
  exact pairwise_of_groups (rankByKey_descending key elements) grouped

end JuliaLint

import JuliaLint.Text.Basic

namespace JuliaLint
namespace Text

/-!
Texts in order.  Texts are compared unit by unit, and a text comes in front of
those that it begins.  Sorting keeps every text as often as it was given, and
distinct texts ascend strictly once they are sorted.
-/

/-- Puts a text in front of the first one that is not smaller. -/
def insertAscending (text : Text) : List Text → List Text
  | [] => [text]
  | other :: others =>
      if other < text then
        other :: insertAscending text others
      else
        text :: other :: others

/-- The texts by ascending code units. -/
def ascending : List Text → List Text
  | [] => []
  | text :: others => insertAscending text (ascending others)

theorem insertAscending_perm (text : Text) (others : List Text) :
    (insertAscending text others).Perm (text :: others) := by
  induction others with
  | nil => exact List.Perm.refl _
  | cons other others ih =>
      rw [insertAscending]
      split
      · exact (ih.cons other).trans (List.Perm.swap text other others)
      · exact List.Perm.refl _

theorem ascending_perm (texts : List Text) : (ascending texts).Perm texts := by
  induction texts with
  | nil => exact List.Perm.refl _
  | cons text others ih => exact (insertAscending_perm text _).trans (ih.cons text)

theorem mem_ascending {texts : List Text} {text : Text} :
    text ∈ ascending texts ↔ text ∈ texts :=
  (ascending_perm texts).mem_iff

theorem insertAscending_ascends {text : Text} {others : List Text}
    (ascends : others.Pairwise (· < ·)) (fresh : text ∉ others) :
    (insertAscending text others).Pairwise (· < ·) := by
  induction others with
  | nil => exact List.pairwise_singleton ..
  | cons other others ih =>
      rcases List.pairwise_cons.mp ascends with ⟨first, rest⟩
      rw [insertAscending]
      split
      · next smaller =>
        have freshBehind : text ∉ others := fun later => fresh (List.mem_cons_of_mem _ later)
        refine List.pairwise_cons.mpr ⟨fun later member => ?_, ih rest freshBehind⟩
        rcases List.mem_cons.mp ((insertAscending_perm text others).mem_iff.mp member) with
          rfl | behind
        · exact smaller
        · exact first later behind
      · next notSmaller =>
        have different : text ≠ other := fun same => fresh (same ▸ List.mem_cons_self)
        have larger : text < other :=
          Std.lt_of_le_of_ne (List.not_lt.mp notSmaller) different
        refine List.pairwise_cons.mpr ⟨fun later member => ?_, ascends⟩
        rcases List.mem_cons.mp member with rfl | behind
        · exact larger
        · exact List.lt_trans larger (first later behind)

theorem ascending_ascends {texts : List Text} (distinct : texts.Nodup) :
    (ascending texts).Pairwise (· < ·) := by
  induction texts with
  | nil => exact List.Pairwise.nil
  | cons text others ih =>
      rcases List.nodup_cons.mp distinct with ⟨fresh, othersDistinct⟩
      exact insertAscending_ascends (ih othersDistinct) fun later => fresh (mem_ascending.mp later)

/-- Dropping repeated texts leaves each of them once. -/
theorem nodup_eraseDups (texts : List Text) : texts.eraseDups.Nodup := by
  cases texts with
  | nil => exact List.nodup_nil
  | cons text others =>
      rw [List.eraseDups_cons]
      refine List.nodup_cons.mpr ⟨?_, nodup_eraseDups _⟩
      intro later
      have different := (List.mem_filter.mp (List.mem_eraseDups.mp later)).2
      rw [BEq.rfl] at different
      cases different
termination_by texts.length
decreasing_by
  have fewer := List.length_filter_le (fun other => !other == text) others
  exact Nat.lt_succ_of_le fewer

end Text
end JuliaLint

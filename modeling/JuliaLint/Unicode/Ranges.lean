namespace JuliaLint
namespace Unicode

/-!
Sets of code points as ascending lists of closed ranges.  A look-up walks the
list and stops as soon as a range lies beyond the code point, so the common
small code points are found or refused within the first few ranges.  The
tables that use them list the assignments of version 17 of the standard.
-/

/-- Closed ranges of code points, in ascending order and apart from each other. -/
abbrev Ranges := List (Nat × Nat)

/-- Whether one of the ascending ranges holds the code point. -/
def Ranges.contain : Ranges → Nat → Bool
  | [], _ => false
  | (low, high) :: ranges, codePoint =>
      if codePoint < low then false
      else if codePoint ≤ high then true
      else Ranges.contain ranges codePoint

/-- A code point that the ascending look-up finds lies in one of the ranges. -/
theorem Ranges.exists_mem_of_contain {ranges : Ranges} {codePoint : Nat}
    (found : ranges.contain codePoint = true) :
    ∃ range ∈ ranges, range.1 ≤ codePoint ∧ codePoint ≤ range.2 := by
  induction ranges with
  | nil => simp [Ranges.contain] at found
  | cons range ranges ih =>
      obtain ⟨low, high⟩ := range
      rw [Ranges.contain] at found
      split at found
      · simp at found
      · split at found
        · exact ⟨(low, high), List.mem_cons_self .., by omega, by omega⟩
        · obtain ⟨later, member, bounds⟩ := ih found
          exact ⟨later, List.mem_cons_of_mem _ member, bounds⟩

end Unicode
end JuliaLint

import JuliaLint.Text.Basic

namespace JuliaLint

/-!
Lines of a text.  A text is cut at every unit that a given test accepts, and
the accepted units themselves belong to no piece, so a text with `n` such
units has `n + 1` pieces and the empty text has one.
-/

namespace Text

/-- The pieces between the units that `separates` accepts. -/
def splitWhere (separates : CodeUnit → Bool) : Text → List Text
  | [] => [[]]
  | unit :: text =>
      if separates unit then
        [] :: splitWhere separates text
      else
        match splitWhere separates text with
        | [] => [[unit]]
        | piece :: pieces => (unit :: piece) :: pieces

/-- The lines of a text, which line feeds separate. -/
def lines (text : Text) : List Text :=
  splitWhere (fun unit => unit == CodeUnit.lineFeed) text

/-- Every text has at least one piece. -/
theorem splitWhere_ne_nil (separates : CodeUnit → Bool) (text : Text) :
    splitWhere separates text ≠ [] := by
  cases text with
  | nil => simp [splitWhere]
  | cons unit text =>
      rw [splitWhere]
      split
      · simp
      · split <;> simp

/-- No piece holds a separating unit. -/
theorem not_separates_of_mem_splitWhere {separates : CodeUnit → Bool} {text piece : Text}
    (member : piece ∈ splitWhere separates text) :
    ∀ unit ∈ piece, separates unit = false := by
  induction text generalizing piece with
  | nil => simp_all [splitWhere]
  | cons unit text ih =>
      by_cases separator : separates unit = true
      · rw [splitWhere, if_pos separator] at member
        rcases List.mem_cons.mp member with rfl | later
        · simp
        · exact ih later
      · rw [splitWhere, if_neg separator] at member
        cases rest : splitWhere separates text with
        | nil => simp_all
        | cons first more =>
            rw [rest] at member ih
            rcases List.mem_cons.mp member with rfl | later
            · intro each inPiece
              rcases List.mem_cons.mp inPiece with rfl | inFirst
              · simpa using separator
              · exact ih (List.mem_cons_self ..) each inFirst
            · exact ih (List.mem_cons_of_mem _ later)

end Text
end JuliaLint

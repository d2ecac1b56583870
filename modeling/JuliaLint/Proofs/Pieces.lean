import JuliaLint.Text.Line

namespace JuliaLint
namespace Text

/-!
# Pieces of a text and where they stand

Splitting a text forgets the units at which it is cut.  Every piece but the last
has exactly one of them behind it, so the offset of a piece can still be told
from the pieces in front of it.

A split is read from the left: its first piece runs to the first separating unit
or to the end of the text, and the other pieces are those of the text behind
that unit.
-/

/-- Each piece with the offset at which it starts, from the offset of the first one on. -/
def placedFrom : (offset : Nat) → List Text → List (Nat × Text)
  | _, [] => []
  | offset, piece :: pieces => (offset, piece) :: placedFrom (offset + piece.length + 1) pieces

/-- The pieces of a text, each with the offset at which it starts. -/
def placedPieces (separates : CodeUnit → Bool) (text : Text) : List (Nat × Text) :=
  placedFrom 0 (splitWhere separates text)

theorem map_snd_placedFrom (offset : Nat) (pieces : List Text) :
    (placedFrom offset pieces).map Prod.snd = pieces := by
  induction pieces generalizing offset with
  | nil => rfl
  | cons piece pieces ih => rw [placedFrom, List.map_cons, ih]

section Splitting

variable {separates : CodeUnit → Bool}

theorem splitWhere_cons_of_separates {unit : CodeUnit} (separator : separates unit = true)
    (text : Text) : splitWhere separates (unit :: text) = [] :: splitWhere separates text := by
  rw [splitWhere, if_pos separator]

/-- A unit that does not separate belongs to the piece that follows it. -/
theorem splitWhere_cons_of_inner {unit : CodeUnit} {text piece : Text} {pieces : List Text}
    (inner : separates unit = false) (split : splitWhere separates text = piece :: pieces) :
    splitWhere separates (unit :: text) = (unit :: piece) :: pieces := by
  rw [splitWhere, if_neg (by simp [inner]), split]

theorem splitWhere_append {front text piece : Text} {pieces : List Text}
    (inner : ∀ unit ∈ front, separates unit = false)
    (split : splitWhere separates text = piece :: pieces) :
    splitWhere separates (front ++ text) = (front ++ piece) :: pieces := by
  induction front with
  | nil => exact split
  | cons unit front ih =>
      apply splitWhere_cons_of_inner (inner unit List.mem_cons_self)
      exact ih fun each member => inner each (List.mem_cons_of_mem _ member)

/-- The first piece runs to the first separating unit. -/
theorem splitWhere_append_cons {piece : Text} {unit : CodeUnit}
    (inner : ∀ each ∈ piece, separates each = false) (separator : separates unit = true)
    (rest : Text) :
    splitWhere separates (piece ++ unit :: rest) = piece :: splitWhere separates rest := by
  rw [splitWhere_append inner (splitWhere_cons_of_separates separator rest), List.append_nil]

/-- Behind the first piece the text ends, or a separating unit stands there. -/
theorem eq_append_of_splitWhere {text piece : Text} {pieces : List Text}
    (split : splitWhere separates text = piece :: pieces) :
    pieces = [] ∧ text = piece ∨
      ∃ unit rest, separates unit = true ∧ text = piece ++ unit :: rest ∧
        pieces = splitWhere separates rest := by
  induction text generalizing piece with
  | nil =>
      rcases List.cons.inj split with ⟨rfl, rfl⟩
      exact Or.inl ⟨rfl, rfl⟩
  | cons first text ih =>
      cases separator : separates first with
      | true =>
          rw [splitWhere_cons_of_separates separator] at split
          rcases List.cons.inj split with ⟨rfl, rfl⟩
          exact Or.inr ⟨first, text, separator, rfl, rfl⟩
      | false =>
          rcases List.exists_cons_of_ne_nil (splitWhere_ne_nil separates text) with
            ⟨inner, others, laterSplit⟩
          rw [splitWhere_cons_of_inner separator laterSplit] at split
          rcases List.cons.inj split with ⟨rfl, rfl⟩
          rcases ih laterSplit with ⟨last, rfl⟩ | ⟨unit, rest, isSeparator, rfl, behind⟩
          · exact Or.inl ⟨last, rfl⟩
          · exact Or.inr ⟨unit, rest, isSeparator, rfl, behind⟩

/-- Cutting a text at a separating unit cuts its pieces there. -/
theorem splitWhere_append_of_separates {unit : CodeUnit} (separator : separates unit = true)
    (front back : Text) :
    splitWhere separates (front ++ unit :: back) =
      splitWhere separates front ++ splitWhere separates back := by
  induction front with
  | nil => exact splitWhere_cons_of_separates separator back
  | cons first front ih =>
      cases firstSeparates : separates first with
      | true =>
          rw [List.cons_append, splitWhere_cons_of_separates firstSeparates, ih,
            splitWhere_cons_of_separates firstSeparates, List.cons_append]
      | false =>
          rcases List.exists_cons_of_ne_nil (splitWhere_ne_nil separates front) with
            ⟨piece, pieces, split⟩
          rw [split, List.cons_append] at ih
          rw [List.cons_append, splitWhere_cons_of_inner firstSeparates ih,
            splitWhere_cons_of_inner firstSeparates split, List.cons_append]

/-- A unit behind the text that does not separate belongs to the last piece. -/
theorem splitWhere_concat_of_inner {unit : CodeUnit} (inner : separates unit = false)
    (text : Text) :
    ∃ pieces last, splitWhere separates text = pieces ++ [last] ∧
      splitWhere separates (text ++ [unit]) = pieces ++ [last ++ [unit]] := by
  induction text with
  | nil => exact ⟨[], [], rfl, splitWhere_cons_of_inner inner rfl⟩
  | cons first text ih =>
      rcases ih with ⟨pieces, last, split, longer⟩
      cases firstSeparates : separates first with
      | true =>
          refine ⟨[] :: pieces, last, ?_, ?_⟩
          · rw [splitWhere_cons_of_separates firstSeparates, split, List.cons_append]
          · rw [List.cons_append, splitWhere_cons_of_separates firstSeparates, longer,
              List.cons_append]
      | false =>
          cases pieces with
          | nil =>
              exact ⟨[], first :: last, splitWhere_cons_of_inner firstSeparates split,
                splitWhere_cons_of_inner firstSeparates longer⟩
          | cons piece pieces =>
              exact ⟨(first :: piece) :: pieces, last,
                splitWhere_cons_of_inner firstSeparates split,
                splitWhere_cons_of_inner firstSeparates longer⟩

/-- Where two texts meet, the last piece of the first and the first of the second become one. -/
theorem splitWhere_append_pieces {front back last first : Text} {pieces others : List Text}
    (frontSplit : splitWhere separates front = pieces ++ [last])
    (backSplit : splitWhere separates back = first :: others) :
    splitWhere separates (front ++ back) = pieces ++ (last ++ first) :: others := by
  induction front generalizing pieces last with
  | nil =>
      cases pieces with
      | nil =>
          obtain rfl : [] = last := (List.cons.inj frontSplit).1
          exact backSplit
      | cons piece pieces => simp [splitWhere] at frontSplit
  | cons unit front ih =>
      cases unitSeparates : separates unit with
      | true =>
          rw [splitWhere_cons_of_separates unitSeparates] at frontSplit
          cases pieces with
          | nil => exact absurd (List.cons.inj frontSplit).2 (splitWhere_ne_nil separates front)
          | cons piece pieces =>
              rcases List.cons.inj frontSplit with ⟨rfl, laterSplit⟩
              rw [List.cons_append, splitWhere_cons_of_separates unitSeparates, ih laterSplit,
                List.cons_append]
      | false =>
          rcases List.exists_cons_of_ne_nil (splitWhere_ne_nil separates front) with
            ⟨piece, later, split⟩
          rw [splitWhere_cons_of_inner unitSeparates split] at frontSplit
          cases pieces with
          | nil =>
              rcases List.cons.inj frontSplit with ⟨rfl, rfl⟩
              have laterSplit : splitWhere separates front = [] ++ [piece] := split
              exact splitWhere_cons_of_inner unitSeparates (ih laterSplit)
          | cons whole pieces =>
              rcases List.cons.inj frontSplit with ⟨rfl, rfl⟩
              have laterSplit : splitWhere separates front = (piece :: pieces) ++ [last] := split
              exact splitWhere_cons_of_inner unitSeparates (ih laterSplit)

end Splitting

end Text
end JuliaLint

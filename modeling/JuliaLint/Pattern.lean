import JuliaLint.Text.Blank

namespace JuliaLint

/-!
Patterns and their occurrences.  A pattern is tried at one place of a text: it
sees the units before that place, nearest first, and the units ahead, and
either refuses or returns what it captured together with the text after the
match.  Scanning tries every place from left to right and resumes behind each
match, so occurrences never overlap and are listed in ascending order.

The remaining definitions are the steps from which the rules build their
patterns: reading up to a mark, seeking a stop, and skipping as many blank
units as the following step permits.
-/

/-- A test at one place of a text, with what it captures and what is left. -/
abbrev Pattern (α : Type) := (before ahead : Text) → Option (α × Text)

/-- One match: where it starts, the units it covers and what it captured. -/
structure Occurrence (α : Type) where
  start : Nat
  matched : Text
  capture : α
  deriving DecidableEq, Repr

namespace Occurrence

/-- The offset just behind the match. -/
def stop {α : Type} (occurrence : Occurrence α) : Nat :=
  occurrence.start + occurrence.matched.length

end Occurrence

namespace Pattern

/--
The occurrences ahead of a place.  The next `skip` units belong to an
occurrence that was already listed, so no match starts at them.
-/
def scanFrom {α : Type} (pattern : Pattern α) :
    (before : Text) → (skip : Nat) → (ahead : Text) → List (Occurrence α)
  | _, _, [] => []
  | before, skip + 1, unit :: ahead => scanFrom pattern (unit :: before) skip ahead
  | before, 0, unit :: ahead =>
      match pattern before (unit :: ahead) with
      | none => scanFrom pattern (unit :: before) 0 ahead
      | some (capture, rest) =>
          let extent := (unit :: ahead).length - rest.length
          { start := before.length
            matched := (unit :: ahead).take extent
            capture } ::
          scanFrom pattern (unit :: before) (extent - 1) ahead

/-- All occurrences of the pattern in a text, from left to right. -/
def occurrences {α : Type} (pattern : Pattern α) (text : Text) : List (Occurrence α) :=
  scanFrom pattern [] 0 text

end Pattern

/--
The answer of the largest number up to a bound for which there is one.  A
greedy step that gives back what it took tries its choices in this order.
-/
def largest? {β : Type} (attempt : Nat → Option β) : (bound : Nat) → Option β
  | 0 => attempt 0
  | bound + 1 =>
      match attempt (bound + 1) with
      | some answer => some answer
      | none => largest? attempt bound

/-- An answer comes from the largest number that has one. -/
theorem largest?_eq_some_iff {β : Type} {attempt : Nat → Option β} {bound : Nat} {answer : β} :
    largest? attempt bound = some answer ↔
      ∃ number ≤ bound, attempt number = some answer ∧
        ∀ larger, number < larger → larger ≤ bound → attempt larger = none := by
  induction bound with
  | zero =>
      constructor
      · intro found
        exact ⟨0, Nat.le_refl 0, found, fun larger above below => by omega⟩
      · rintro ⟨number, within, found, _⟩
        obtain rfl : number = 0 := Nat.le_zero.mp within
        exact found
  | succ bound ih =>
      rw [largest?]
      split
      · next top found =>
        constructor
        · intro same
          have sameAnswer : attempt (bound + 1) = some answer := found.trans same
          exact ⟨bound + 1, Nat.le_refl _, sameAnswer, fun larger above below => by omega⟩
        · rintro ⟨number, within, answered, silent⟩
          rcases Nat.lt_or_ge number (bound + 1) with below | atTop
          · rw [silent (bound + 1) below (Nat.le_refl _)] at found
            exact absurd found (by simp)
          · have isTop : number = bound + 1 := by omega
            rw [isTop, found] at answered
            exact answered
      · next refused =>
        rw [ih]
        constructor
        · rintro ⟨number, within, answered, silent⟩
          refine ⟨number, by omega, answered, fun larger above below => ?_⟩
          rcases Nat.lt_or_ge larger (bound + 1) with lower | atTop
          · exact silent larger above (by omega)
          · have isTop : larger = bound + 1 := by omega
            exact isTop ▸ refused
        · rintro ⟨number, within, answered, silent⟩
          refine ⟨number, ?_, answered, fun larger above below =>
            silent larger above (by omega)⟩
          rcases Nat.lt_or_ge number (bound + 1) with lower | atTop
          · omega
          · have isTop : number = bound + 1 := by omega
            rw [isTop, refused] at answered
            exact absurd answered (by simp)

/-- There is no answer exactly when every number up to the bound refuses. -/
theorem largest?_eq_none_iff {β : Type} {attempt : Nat → Option β} {bound : Nat} :
    largest? attempt bound = none ↔ ∀ number ≤ bound, attempt number = none := by
  induction bound with
  | zero =>
      constructor
      · intro refused number within
        obtain rfl : number = 0 := Nat.le_zero.mp within
        exact refused
      · intro refused
        exact refused 0 (Nat.le_refl 0)
  | succ bound ih =>
      rw [largest?]
      split
      · next top found =>
        constructor
        · intro impossible
          exact absurd impossible (by simp)
        · intro refused
          rw [refused (bound + 1) (Nat.le_refl _)] at found
          exact absurd found (by simp)
      · next refused =>
        rw [ih]
        constructor
        · intro silent number within
          rcases Nat.lt_or_ge number (bound + 1) with lower | atTop
          · exact silent number (by omega)
          · have isTop : number = bound + 1 := by omega
            exact isTop ▸ refused
        · intro silent number within
          exact silent number (by omega)

namespace Text

/-- The text before the first `mark` and the text behind it. -/
def upTo? (mark : CodeUnit) : Text → Option (Text × Text)
  | [] => none
  | unit :: text =>
      if unit = mark then
        some ([], text)
      else
        (upTo? mark text).map fun (content, rest) => (unit :: content, rest)

/-- The text from the first place that `stops` accepts. -/
def seek? (stops : Text → Bool) : Text → Option Text
  | [] => if stops [] then some [] else none
  | unit :: text => if stops (unit :: text) then some (unit :: text) else seek? stops text

/-- Skips as many leading blank units as let `attempt` succeed on the rest. -/
def skipMostBlanks? {β : Type} (attempt : Text → Option β) (text : Text) : Option β :=
  largest? (fun count => attempt (text.drop count)) (leadingBlanks text).length

/-- Reading up to a mark cuts the text at the first place where it stands. -/
theorem upTo?_eq_some_iff {mark : CodeUnit} {text content rest : Text} :
    upTo? mark text = some (content, rest) ↔
      mark ∉ content ∧ text = content ++ mark :: rest := by
  induction text generalizing content with
  | nil => simp [upTo?]
  | cons unit text ih =>
      by_cases same : unit = mark
      · subst same
        cases content with
        | nil => simp [upTo?, eq_comm]
        | cons first content => simp [upTo?]; grind
      · cases content with
        | nil => simp [upTo?, same]
        | cons first content => simp [upTo?, same]; grind

end Text
end JuliaLint

import JuliaLint.Ranking
import JuliaLint.Text.Basic

namespace JuliaLint

/-!
Frequency tables.  A tally pairs each value that occurs with the number of its
occurrences, in the order in which the values first appeared; the ranked tally
lists the most frequent values first and lets first appearance decide ties.
-/

abbrev Tally (α : Type) := List (α × Nat)

namespace Tally

variable {α : Type} [DecidableEq α]

/-- Counts one more occurrence; a value without an entry gets one at the end. -/
def count (value : α) : Tally α → Tally α
  | [] => [(value, 1)]
  | (counted, times) :: tally =>
      if counted = value then
        (counted, times + 1) :: tally
      else
        (counted, times) :: count value tally

/-- The tally of a list, by first appearance. -/
def ofList (values : List α) : Tally α :=
  values.foldl (fun tally value => tally.count value) []

/-- The entries from the most to the least frequent; ties stay in their order. -/
def ranked (tally : Tally α) : Tally α :=
  rankByKey (fun entry => (entry.2 : Int)) tally

/-- The ranked entries in braces, each as value, colon and count. -/
def render (textOf : α → Text) (tally : Tally α) : Text :=
  let entries := tally.ranked.map fun (value, times) =>
    textOf value ++ ": " ++ Text.ofNat times
  "\x7b" ++ Text.join ", " entries ++ "\x7d"

end Tally
end JuliaLint

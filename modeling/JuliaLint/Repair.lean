import JuliaLint.Finding
import JuliaLint.Ranking

namespace JuliaLint

/-!
Repairing a text by patches.  A patch replaces the units between two offsets,
which may be any integers.  Patches are considered by descending right end, and
equal ends in the order given; a patch that overlaps one kept before is skipped,
and the kept patches are made one after the other.  Since each lies to the left
of those made before it, the offsets of ordinary patches still mean what they
meant in the source.
-/

/-- A replacement between two offsets, with the code of the finding it answers. -/
structure Patch where
  code : String
  /-- A patch that is not applicable is left out of every count. -/
  applicable : Bool
  start : Int
  stop : Int
  replacement : Text
  deriving DecidableEq, Repr

/-- The patches for the edits of a finding. -/
def Finding.patches (finding : Finding) : List Patch :=
  finding.edits.map fun edit =>
    { code := finding.code
      applicable := edit.applicable
      start := edit.start.offset
      stop := edit.stop.offset
      replacement := edit.replacement }

namespace Patch

/-- Whether each patch starts before the other one stops. -/
def overlaps (first second : Patch) : Bool :=
  decide (first.start < second.stop) && decide (second.start < first.stop)

theorem overlaps_comm (first second : Patch) :
    first.overlaps second = second.overlaps first := by
  unfold overlaps
  exact Bool.and_comm ..

end Patch

namespace Text

/--
The place in a text that an integer denotes: a negative one counts from the
end, and what lies outside the text is moved to its nearer end.
-/
def cutPoint (text : Text) (index : Int) : Nat :=
  if index < 0 then
    (text.length + index).toNat
  else
    min index.toNat text.length

def splice (text : Text) (patch : Patch) : Text :=
  text.take (text.cutPoint patch.start) ++ patch.replacement ++
    text.drop (text.cutPoint patch.stop)

end Text

/-- The patches that are kept and those that are skipped, each in their order. -/
structure Sifted where
  kept : List Patch
  skipped : List Patch
  deriving DecidableEq, Repr

/-- Keeps every patch that overlaps neither an earlier kept one nor one in `before`. -/
def sift (before : List Patch) : List Patch → Sifted
  | [] => { kept := [], skipped := [] }
  | patch :: patches =>
      if before.any patch.overlaps then
        let sifted := sift before patches
        { sifted with skipped := patch :: sifted.skipped }
      else
        let sifted := sift (patch :: before) patches
        { sifted with kept := patch :: sifted.kept }

/-- A repaired text, with the patches that were made and those that were not. -/
structure Repair where
  text : Text
  applied : List Patch
  skipped : List Patch
  deriving DecidableEq, Repr

namespace Repair

def skipReason : Text :=
  "Fix range overlaps with another fix"

/-- The code of every skipped patch with the reason for skipping it. -/
def reasons (repair : Repair) : List (String × Text) :=
  repair.skipped.map fun patch => (patch.code, skipReason)

end Repair

/-- The applicable patches by descending right end. -/
def rankPatches (patches : List Patch) : List Patch :=
  rankByKey Patch.stop (patches.filter Patch.applicable)

/-- Repairs a text by all applicable patches that do not overlap. -/
def repair (source : Text) (patches : List Patch) : Repair :=
  let sifted := sift [] (rankPatches patches)
  { text := sifted.kept.foldl Text.splice source
    applied := sifted.kept
    skipped := sifted.skipped }

/-- Every patch is either kept or skipped. -/
theorem length_kept_add_length_skipped (before patches : List Patch) :
    (sift before patches).kept.length + (sift before patches).skipped.length =
      patches.length := by
  induction patches generalizing before with
  | nil => rfl
  | cons patch patches ih =>
      rw [sift]
      split
      · have rest := ih before
        simp only [List.length_cons]
        omega
      · have rest := ih (patch :: before)
        simp only [List.length_cons]
        omega

end JuliaLint

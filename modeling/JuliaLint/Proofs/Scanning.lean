import JuliaLint.Pattern

namespace JuliaLint
namespace Pattern

/-!
# Scanning and substituting

Scanning counts down the units of a match that it has already listed.  For a
pattern whose matches are nonempty and consist of the next units, this counting
can be forgotten: a place either refuses and scanning goes on behind its first
unit, or it accepts and scanning goes on behind the match.  These two steps and
the end of the text are the cases of an induction principle, from which the
order and the extent of the occurrences follow.

Substituting walks over the text in the same way, but writes a text instead of
a list: it copies the units outside the matches and renders each match.
-/

variable {α : Type}

/-- Every match consists of the next units, and there is at least one of them. -/
def Advances (pattern : Pattern α) : Prop :=
  ∀ (before ahead : Text) (capture : α) (rest : Text),
    pattern before ahead = some (capture, rest) →
      ∃ matched : Text, matched ≠ [] ∧ ahead = matched ++ rest

/--
One walk over the units ahead, from left to right.  The next `skip` units belong
to a match that was already rendered, so they are neither tried nor copied.
-/
def substituteFrom (pattern : Pattern α) (render : α → Text) :
    (before : Text) → (skip : Nat) → (ahead : Text) → Text
  | _, _, [] => []
  | before, skip + 1, unit :: ahead =>
      substituteFrom pattern render (unit :: before) skip ahead
  | before, 0, unit :: ahead =>
      match pattern before (unit :: ahead) with
      | none => unit :: substituteFrom pattern render (unit :: before) 0 ahead
      | some (capture, rest) =>
          render capture ++
            substituteFrom pattern render (unit :: before)
              ((unit :: ahead).length - rest.length - 1) ahead

/-- The text with every match rendered and every other unit copied. -/
def substitute (pattern : Pattern α) (render : α → Text) (text : Text) : Text :=
  substituteFrom pattern render [] 0 text

/-! ## One step of a walk -/

section Steps

variable (pattern : Pattern α) (render : α → Text)

private theorem scanFrom_skip (before : Text) (skip : Nat) (ahead : Text) :
    scanFrom pattern before skip ahead =
      scanFrom pattern ((ahead.take skip).reverse ++ before) 0 (ahead.drop skip) := by
  induction ahead generalizing before skip with
  | nil => simp only [scanFrom, List.drop_nil]
  | cons unit ahead ih =>
      cases skip with
      | zero => rfl
      | succ skip =>
          rw [scanFrom, ih, List.take_succ_cons, List.drop_succ_cons, List.reverse_cons,
            List.append_assoc, List.singleton_append]

private theorem substituteFrom_skip (before : Text) (skip : Nat) (ahead : Text) :
    substituteFrom pattern render before skip ahead =
      substituteFrom pattern render ((ahead.take skip).reverse ++ before) 0
        (ahead.drop skip) := by
  induction ahead generalizing before skip with
  | nil => simp only [substituteFrom, List.drop_nil]
  | cons unit ahead ih =>
      cases skip with
      | zero => rfl
      | succ skip =>
          rw [substituteFrom, ih, List.take_succ_cons, List.drop_succ_cons,
            List.reverse_cons, List.append_assoc, List.singleton_append]

variable {pattern} {before ahead matched rest : Text} {unit : CodeUnit} {capture : α}

theorem scanFrom_of_refused (refused : pattern before (unit :: ahead) = none) :
    scanFrom pattern before 0 (unit :: ahead) =
      scanFrom pattern (unit :: before) 0 ahead := by
  rw [scanFrom, refused]

theorem substituteFrom_of_refused (refused : pattern before (unit :: ahead) = none) :
    substituteFrom pattern render before 0 (unit :: ahead) =
      unit :: substituteFrom pattern render (unit :: before) 0 ahead := by
  rw [substituteFrom, refused]

theorem scanFrom_of_accepted (nonempty : matched ≠ [])
    (accepted : pattern before (matched ++ rest) = some (capture, rest)) :
    scanFrom pattern before 0 (matched ++ rest) =
      { start := before.length, matched, capture } ::
        scanFrom pattern (matched.reverse ++ before) 0 rest := by
  cases matched with
  | nil => exact absurd rfl nonempty
  | cons first others =>
      have extent : (first :: (others ++ rest)).length - rest.length = others.length + 1 := by
        simp only [List.length_cons, List.length_append]
        omega
      rw [List.cons_append] at accepted ⊢
      rw [scanFrom, accepted]
      simp only [extent, Nat.add_sub_cancel]
      rw [scanFrom_skip, List.take_left, List.drop_left, List.take_succ_cons, List.take_left,
        List.reverse_cons, List.append_assoc, List.singleton_append]

theorem substituteFrom_of_accepted (nonempty : matched ≠ [])
    (accepted : pattern before (matched ++ rest) = some (capture, rest)) :
    substituteFrom pattern render before 0 (matched ++ rest) =
      render capture ++
        substituteFrom pattern render (matched.reverse ++ before) 0 rest := by
  cases matched with
  | nil => exact absurd rfl nonempty
  | cons first others =>
      have extent : (first :: (others ++ rest)).length - rest.length - 1 = others.length := by
        simp only [List.length_cons, List.length_append]
        omega
      rw [List.cons_append] at accepted ⊢
      rw [substituteFrom, accepted]
      simp only [extent]
      rw [substituteFrom_skip, List.take_left, List.drop_left, List.reverse_cons,
        List.append_assoc, List.singleton_append]

end Steps

/-! ## Whole walks -/

/--
Induction along a walk.  Both steps leave fewer units ahead, so the induction is
on their number.
-/
@[elab_as_elim]
theorem walk_induction {pattern : Pattern α} (advances : pattern.Advances)
    {motive : Text → Text → Prop}
    (finished : ∀ before, motive before [])
    (refused : ∀ before unit ahead, pattern before (unit :: ahead) = none →
      motive (unit :: before) ahead → motive before (unit :: ahead))
    (accepted : ∀ before matched capture rest, matched ≠ [] →
      pattern before (matched ++ rest) = some (capture, rest) →
      motive (matched.reverse ++ before) rest → motive before (matched ++ rest))
    (before ahead : Text) : motive before ahead := by
  induction count : ahead.length using Nat.strongRecOn generalizing before ahead with
  | ind size ih =>
      cases ahead with
      | nil => exact finished before
      | cons unit ahead =>
          cases outcome : pattern before (unit :: ahead) with
          | none =>
              apply refused before unit ahead outcome
              exact ih ahead.length (count ▸ Nat.lt_succ_self _) _ _ rfl
          | some result =>
              rcases result with ⟨capture, rest⟩
              rcases advances _ _ _ _ outcome with ⟨matched, nonempty, split⟩
              rw [split] at outcome count ⊢
              apply accepted before matched capture rest nonempty outcome
              have shorter : rest.length < size := by
                have positive := List.length_pos_iff.mpr nonempty
                rw [List.length_append] at count
                omega
              exact ih rest.length shorter _ _ rfl

section Walks

variable {pattern : Pattern α} (advances : pattern.Advances)

include advances

/-- The occurrences ahead of a place are nonempty stretches between it and the end. -/
theorem scanFrom_within (before ahead : Text) :
    ∀ occurrence ∈ scanFrom pattern before 0 ahead,
      before.length ≤ occurrence.start ∧ occurrence.start < occurrence.stop ∧
        occurrence.stop ≤ before.length + ahead.length := by
  induction before, ahead using walk_induction advances with
  | finished before => simp [scanFrom]
  | refused before unit ahead outcome ih =>
      rw [scanFrom_of_refused outcome]
      intro occurrence member
      have within := ih occurrence member
      simp only [List.length_cons] at within ⊢
      omega
  | accepted before matched capture rest nonempty outcome ih =>
      rw [scanFrom_of_accepted nonempty outcome]
      have positive := List.length_pos_iff.mpr nonempty
      intro occurrence member
      rcases List.mem_cons.mp member with rfl | later
      · simp only [Occurrence.stop, List.length_append]
        omega
      · have within := ih occurrence later
        simp only [List.length_append, List.length_reverse] at within ⊢
        omega

/-- Every occurrence stops before the next one starts. -/
theorem scanFrom_ascending (before ahead : Text) :
    (scanFrom pattern before 0 ahead).Pairwise
      fun earlier later => earlier.stop ≤ later.start := by
  induction before, ahead using walk_induction advances with
  | finished before => exact List.Pairwise.nil
  | refused before unit ahead outcome ih =>
      rw [scanFrom_of_refused outcome]
      exact ih
  | accepted before matched capture rest nonempty outcome ih =>
      rw [scanFrom_of_accepted nonempty outcome]
      apply List.pairwise_cons.mpr
      refine ⟨?_, ih⟩
      intro later member
      have beyond := (scanFrom_within advances _ _ later member).1
      simp only [Occurrence.stop, List.length_append, List.length_reverse] at beyond ⊢
      omega

/-- Each occurrence is listed once, from left to right. -/
theorem scanFrom_starts_ascend (before ahead : Text) :
    (scanFrom pattern before 0 ahead).Pairwise
      fun earlier later => earlier.start < later.start := by
  apply List.Pairwise.imp_of_mem _ (scanFrom_ascending advances before ahead)
  intro earlier later earlierListed _ behind
  have within := scanFrom_within advances before ahead earlier earlierListed
  exact Nat.lt_of_lt_of_le within.2.1 behind

/-- Every occurrence is what the pattern reads at the place where it starts. -/
theorem eq_append_of_mem_scanFrom {before ahead : Text} {occurrence : Occurrence α}
    (listed : occurrence ∈ scanFrom pattern before 0 ahead) :
    ∃ lead rest, ahead = lead ++ (occurrence.matched ++ rest) ∧
      occurrence.start = before.length + lead.length ∧
      pattern (lead.reverse ++ before) (occurrence.matched ++ rest) =
        some (occurrence.capture, rest) := by
  induction before, ahead using walk_induction advances with
  | finished before => simp [scanFrom] at listed
  | refused before unit ahead outcome ih =>
      rw [scanFrom_of_refused outcome] at listed
      rcases ih listed with ⟨lead, rest, rfl, start, read⟩
      refine ⟨unit :: lead, rest, rfl, ?_, ?_⟩
      · rw [start, List.length_cons, List.length_cons]
        omega
      · rw [List.reverse_cons, List.append_assoc]
        exact read
  | accepted before matched capture rest nonempty outcome ih =>
      rw [scanFrom_of_accepted nonempty outcome] at listed
      rcases List.mem_cons.mp listed with rfl | later
      · exact ⟨[], rest, rfl, rfl, outcome⟩
      · rcases ih later with ⟨lead, behind, rfl, start, read⟩
        refine ⟨matched ++ lead, behind, (List.append_assoc ..).symm, ?_, ?_⟩
        · rw [start, List.length_append, List.length_append, List.length_reverse]
          omega
        · rw [List.reverse_append, List.append_assoc]
          exact read

/-- An occurrence is read between its two offsets. -/
theorem read_of_mem_occurrences {text : Text} {occurrence : Occurrence α}
    (listed : occurrence ∈ pattern.occurrences text) :
    occurrence.stop ≤ text.length ∧
      pattern (text.take occurrence.start).reverse (text.drop occurrence.start) =
        some (occurrence.capture, text.drop occurrence.stop) := by
  rcases eq_append_of_mem_scanFrom advances listed with ⟨lead, rest, rfl, start, read⟩
  have starts : occurrence.start = lead.length := by
    simpa using start
  have stops : occurrence.stop = (lead ++ occurrence.matched).length := by
    rw [Occurrence.stop, starts, List.length_append]
  constructor
  · simp only [stops, List.length_append]
    omega
  · rw [stops, ← List.append_assoc, List.drop_left, List.append_assoc, starts, List.take_left,
      List.drop_left, ← List.append_nil lead.reverse]
    exact read

/-- An occurrence covers the units between its two offsets. -/
theorem matched_of_mem_occurrences {text : Text} {occurrence : Occurrence α}
    (listed : occurrence ∈ pattern.occurrences text) :
    (text.take occurrence.stop).drop occurrence.start = occurrence.matched := by
  rcases eq_append_of_mem_scanFrom advances listed with ⟨lead, rest, rfl, start, _⟩
  have starts : occurrence.start = lead.length := by
    simpa using start
  rw [Occurrence.stop, starts, List.take_length_add_append, List.drop_left, List.take_left]

/-- Every place that accepts lies in an occurrence, its own or an earlier one. -/
theorem exists_mem_scanFrom_around (before ahead : Text) {lead rest : Text}
    (split : ahead = lead ++ rest)
    (accepts : (pattern (lead.reverse ++ before) rest).isSome = true) :
    ∃ occurrence ∈ scanFrom pattern before 0 ahead,
      occurrence.start ≤ before.length + lead.length ∧
        before.length + lead.length < occurrence.stop := by
  induction before, ahead using walk_induction advances generalizing lead with
  | finished before =>
      rcases List.append_eq_nil_iff.mp split.symm with ⟨rfl, rfl⟩
      rcases Option.isSome_iff_exists.mp accepts with ⟨⟨capture, behind⟩, read⟩
      rcases advances _ _ _ _ read with ⟨matched, nonempty, impossible⟩
      exact absurd (List.append_eq_nil_iff.mp impossible.symm).1 nonempty
  | refused before unit ahead outcome ih =>
      rw [scanFrom_of_refused outcome]
      cases lead with
      | nil =>
          rw [← (show unit :: ahead = rest from split), List.reverse_nil, List.nil_append,
            outcome] at accepts
          cases accepts
      | cons first lead =>
          rcases List.cons.inj split with ⟨rfl, laterSplit⟩
          rw [List.reverse_cons, List.append_assoc] at accepts
          rcases ih laterSplit accepts with ⟨occurrence, listed, around⟩
          refine ⟨occurrence, listed, ?_⟩
          simp only [List.length_cons] at around ⊢
          omega
  | accepted before matched capture behind nonempty outcome ih =>
      rw [scanFrom_of_accepted nonempty outcome]
      by_cases within : lead.length < matched.length
      · refine ⟨_, List.mem_cons_self, Nat.le_add_right .., ?_⟩
        simp only [Occurrence.stop]
        omega
      · have inFront : matched <+: lead :=
          List.prefix_of_prefix_length_le ⟨behind, rfl⟩ ⟨rest, split.symm⟩ (by omega)
        rcases inFront with ⟨more, rfl⟩
        rw [List.append_assoc] at split
        rw [List.reverse_append, List.append_assoc] at accepts
        rcases ih (List.append_cancel_left split) accepts with ⟨occurrence, listed, around⟩
        refine ⟨occurrence, List.mem_cons_of_mem _ listed, ?_⟩
        simp only [List.length_append, List.length_reverse] at around ⊢
        omega

/-- If no place inside a match accepts, every place that accepts has an occurrence of its own. -/
theorem exists_mem_scanFrom_at
    (sealed : ∀ (before passed inner rest : Text) (capture : α), passed ≠ [] → inner ≠ [] →
      pattern before (passed ++ inner ++ rest) = some (capture, rest) →
        pattern (passed.reverse ++ before) (inner ++ rest) = none)
    (before ahead : Text) {lead rest behind : Text} {capture : α} (split : ahead = lead ++ rest)
    (accepts : pattern (lead.reverse ++ before) rest = some (capture, behind)) :
    ∃ occurrence ∈ scanFrom pattern before 0 ahead,
      occurrence.start = before.length + lead.length ∧ occurrence.capture = capture := by
  rcases exists_mem_scanFrom_around advances before ahead split (accepts ▸ rfl) with
    ⟨occurrence, listed, startsBefore, stopsBehind⟩
  refine ⟨occurrence, listed, ?_⟩
  rcases eq_append_of_mem_scanFrom advances listed with
    ⟨inFront, after, occurrenceSplit, start, read⟩
  have leads : inFront <+: lead :=
    List.prefix_of_prefix_length_le ⟨_, occurrenceSplit.symm⟩ ⟨rest, split.symm⟩ (by omega)
  rcases leads with ⟨passed, rfl⟩
  rw [List.length_append] at stopsBehind
  have whole : inFront ++ (occurrence.matched ++ after) = inFront ++ (passed ++ rest) := by
    rw [← occurrenceSplit, split, List.append_assoc]
  have rests : occurrence.matched ++ after = passed ++ rest := List.append_cancel_left whole
  have covers : passed <+: occurrence.matched := by
    refine List.prefix_of_prefix_length_le ⟨rest, rests.symm⟩ ⟨after, rfl⟩ ?_
    rw [Occurrence.stop, start] at stopsBehind
    omega
  rcases covers with ⟨inner, matched⟩
  rw [← matched, List.append_assoc] at rests
  have sameRest : inner ++ after = rest := List.append_cancel_left rests
  by_cases nothingPassed : passed = []
  · subst nothingPassed
    rw [List.append_nil] at accepts ⊢
    refine ⟨start, ?_⟩
    rw [← matched, List.nil_append, sameRest, accepts] at read
    exact (Prod.mk.inj (Option.some.inj read)).1.symm
  · have someInner : inner ≠ [] := by
      rintro rfl
      rw [Occurrence.stop, start, ← matched, List.append_nil] at stopsBehind
      omega
    rw [← matched] at read
    have refused := sealed _ passed inner after _ nothingPassed someInner read
    rw [← List.append_assoc, ← List.reverse_append, sameRest, accepts] at refused
    cases refused

/-- Something is found exactly when some place ahead accepts. -/
theorem scanFrom_ne_nil_iff (before ahead : Text) :
    scanFrom pattern before 0 ahead ≠ [] ↔
      ∃ lead rest, ahead = lead ++ rest ∧
        (pattern (lead.reverse ++ before) rest).isSome = true := by
  constructor
  · intro found
    rcases List.exists_mem_of_ne_nil _ found with ⟨occurrence, listed⟩
    rcases eq_append_of_mem_scanFrom advances listed with ⟨lead, rest, split, _, read⟩
    exact ⟨lead, occurrence.matched ++ rest, split, read ▸ rfl⟩
  · rintro ⟨lead, rest, split, accepts⟩
    rcases exists_mem_scanFrom_around advances before ahead split accepts with
      ⟨occurrence, listed, _⟩
    exact List.ne_nil_of_mem listed

/-- If every match shrinks by a margin, the text shrinks by the margin for each match. -/
theorem length_substituteFrom_le {render : α → Text} {margin : Nat}
    (shrinks : ∀ (before matched rest : Text) (capture : α),
      pattern before (matched ++ rest) = some (capture, rest) →
        (render capture).length + margin ≤ matched.length)
    (before ahead : Text) :
    (substituteFrom pattern render before 0 ahead).length +
      margin * (scanFrom pattern before 0 ahead).length ≤ ahead.length := by
  induction before, ahead using walk_induction advances with
  | finished before => simp [substituteFrom, scanFrom]
  | refused before unit ahead outcome ih =>
      rw [scanFrom_of_refused outcome, substituteFrom_of_refused render outcome]
      simp only [List.length_cons]
      omega
  | accepted before matched capture rest nonempty outcome ih =>
      rw [scanFrom_of_accepted nonempty outcome,
        substituteFrom_of_accepted render nonempty outcome]
      have shrunk := shrinks _ _ _ _ outcome
      simp only [List.length_append, List.length_cons, Nat.mul_add, Nat.mul_one]
      omega

end Walks

/-! ## Leftmost matches -/

/--
The stretches that are taken from a place on, each by its two offsets.  Of the
places that begin a stretch the first one is taken, up to where it reaches, and
the search goes on from there.
-/
inductive LeftmostFrom (begins : Nat → Prop) (reaches : Nat → Nat → Prop) :
    (place : Nat) → List (Nat × Nat) → Prop where
  | finished {place : Nat} (nothing : ∀ later, place ≤ later → ¬begins later) :
      LeftmostFrom begins reaches place []
  | found {place start stop : Nat} {spans : List (Nat × Nat)} (ahead : place ≤ start)
      (passed : ∀ earlier, place ≤ earlier → earlier < start → ¬begins earlier)
      (starts : begins start) (stops : reaches start stop)
      (later : LeftmostFrom begins reaches stop spans) :
      LeftmostFrom begins reaches place ((start, stop) :: spans)

namespace LeftmostFrom

variable {begins : Nat → Prop} {reaches : Nat → Nat → Prop} {place : Nat}
  {spans others : List (Nat × Nat)}

/-- There is no choice but that of an end. -/
theorem unique
    (sameEnd : ∀ start first second, reaches start first → reaches start second → first = second)
    (one : LeftmostFrom begins reaches place spans)
    (other : LeftmostFrom begins reaches place others) : spans = others := by
  induction one generalizing others with
  | finished nothing =>
      cases other with
      | finished _ => rfl
      | found ahead _ starts _ _ => exact absurd starts (nothing _ ahead)
  | @found place start stop spans ahead passed starts stops _ ih =>
      cases other with
      | finished nothing => exact absurd starts (nothing _ ahead)
      | @found _ otherStart otherStop others otherAhead otherPassed otherStarts otherStops later =>
          have sameStart : start = otherStart := by
            rcases Nat.lt_trichotomy start otherStart with before | same | behind
            · exact absurd starts (otherPassed start ahead before)
            · exact same
            · exact absurd otherStarts (passed otherStart otherAhead behind)
          subst sameStart
          obtain rfl : stop = otherStop := sameEnd _ _ _ stops otherStops
          rw [ih later]

/-- Nothing is taken exactly if nothing begins. -/
theorem eq_nil_iff (leftmost : LeftmostFrom begins reaches place spans) :
    spans = [] ↔ ∀ later, place ≤ later → ¬begins later := by
  cases leftmost with
  | finished nothing => exact iff_of_true rfl nothing
  | found ahead _ starts _ _ =>
      exact iff_of_false (List.cons_ne_nil _ _) fun nothing => nothing _ ahead starts

/-- A place that begins nothing is passed. -/
theorem of_refused (refused : ¬begins place)
    (later : LeftmostFrom begins reaches (place + 1) spans) :
    LeftmostFrom begins reaches place spans := by
  have here : ∀ earlier, place ≤ earlier → ¬place + 1 ≤ earlier → ¬begins earlier := by
    intro earlier atLeast atMost
    obtain rfl : earlier = place := by omega
    exact refused
  cases later with
  | finished nothing =>
      refine .finished fun later behind => ?_
      by_cases further : place + 1 ≤ later
      · exact nothing later further
      · exact here later behind further
  | found ahead passed starts stops others =>
      refine .found (by omega) (fun earlier atLeast before => ?_) starts stops others
      by_cases further : place + 1 ≤ earlier
      · exact passed earlier further before
      · exact here earlier atLeast further

end LeftmostFrom

section Leftmost

variable {pattern : Pattern α} (advances : pattern.Advances) {text : Text} {begins : Nat → Prop}
  {reaches : Nat → Nat → Prop}
  (begins_iff : ∀ place,
    begins place ↔ (pattern (text.take place).reverse (text.drop place)).isSome = true)
  (reaches_of_read : ∀ (start stop : Nat) (capture : α), stop ≤ text.length →
    pattern (text.take start).reverse (text.drop start) = some (capture, text.drop stop) →
      reaches start stop)

include advances begins_iff reaches_of_read

theorem leftmostFrom_scanFrom (before ahead : Text) (split : text = before.reverse ++ ahead) :
    LeftmostFrom begins reaches before.length
      ((scanFrom pattern before 0 ahead).map fun occurrence =>
        (occurrence.start, occurrence.stop)) := by
  have here : ∀ (front back : Text), text = front.reverse ++ back →
      text.take front.length = front.reverse ∧ text.drop front.length = back := by
    rintro front back rfl
    rw [← List.length_reverse]
    exact ⟨List.take_left, List.drop_left⟩
  induction before, ahead using walk_induction advances with
  | finished before =>
      refine .finished fun later behind starts => ?_
      have nothingLeft : text.drop later = [] := by
        apply List.drop_eq_nil_of_le
        rw [split, List.append_nil, List.length_reverse]
        exact behind
      rw [begins_iff, nothingLeft] at starts
      rcases Option.isSome_iff_exists.mp starts with ⟨⟨capture, rest⟩, read⟩
      rcases advances _ _ _ _ read with ⟨matched, nonempty, impossible⟩
      exact nonempty (List.append_eq_nil_iff.mp impossible.symm).1
  | refused before unit ahead outcome ih =>
      rw [scanFrom_of_refused outcome]
      refine .of_refused ?_ (ih ?_)
      · rw [begins_iff, (here _ _ split).1, (here _ _ split).2, List.reverse_reverse, outcome]
        exact Bool.false_ne_true
      · rw [split, List.reverse_cons, List.append_assoc, List.singleton_append]
  | accepted before matched capture rest nonempty outcome ih =>
      have restSplit : text = (matched.reverse ++ before).reverse ++ rest := by
        rw [split, List.reverse_append, List.reverse_reverse, List.append_assoc]
      have stop : before.length + matched.length = (matched.reverse ++ before).length := by
        rw [List.length_append, List.length_reverse, Nat.add_comm]
      have read : pattern (text.take before.length).reverse (text.drop before.length) =
          some (capture, text.drop (before.length + matched.length)) := by
        rw [(here _ _ split).1, (here _ _ split).2, List.reverse_reverse, stop,
          (here _ _ restSplit).2, outcome]
      rw [scanFrom_of_accepted nonempty outcome, List.map_cons]
      refine .found (Nat.le_refl _)
        (fun earlier atLeast inFront => absurd inFront (Nat.not_lt.mpr atLeast)) ?_ ?_ ?_
      · rw [begins_iff, read]
        rfl
      · refine reaches_of_read _ _ capture ?_ read
        simp only [Occurrence.stop, split, List.length_append, List.length_reverse]
        omega
      · rw [show Occurrence.stop { start := before.length, matched, capture } =
          (matched.reverse ++ before).length from stop]
        exact ih restSplit

/-- Scanning a text takes its leftmost matches. -/
theorem leftmostFrom_occurrences :
    LeftmostFrom begins reaches 0
      ((pattern.occurrences text).map fun occurrence => (occurrence.start, occurrence.stop)) :=
  leftmostFrom_scanFrom advances begins_iff reaches_of_read [] text rfl

end Leftmost

end Pattern
end JuliaLint

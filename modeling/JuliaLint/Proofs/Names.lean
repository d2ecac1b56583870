import JuliaLint.Proofs.WellFormedText
import JuliaLint.Text.Identifier

namespace JuliaLint

/-!
# Names, character by character

Names are read on code units, with an eye on surrogate pairs.  Here a name is a
nonempty list of characters, each of which may stand in a name, and reading is
related to the units of these characters.  A surrogate alone is no character and
may not stand in a name, so nothing is lost by speaking of characters.

A text that does not start with an identifier character, such as one that starts
with blank space, ends the name in front of it.
-/

/-! ## The tables of identifier characters -/

namespace Unicode

/-- Ranges that all lie on one side of an interval hold nothing of it. -/
theorem Ranges.contain_eq_false {ranges : Ranges} {low high codePoint : Nat}
    (apart : ranges.all (fun range => decide (range.2 < low) || decide (high < range.1)) = true)
    (above : low ≤ codePoint) (below : codePoint ≤ high) : ranges.contain codePoint = false := by
  apply Bool.eq_false_iff.mpr
  intro found
  rcases Ranges.exists_mem_of_contain found with ⟨range, member, fromLow, toHigh⟩
  have outside := List.all_eq_true.mp apart range member
  simp only [Bool.or_eq_true, decide_eq_true_eq] at outside
  omega

end Unicode

theorem isIdentifierCodePoint_of_surrogate {codePoint : Nat} (above : 0xD800 ≤ codePoint)
    (below : codePoint ≤ 0xDFFF) : isIdentifierCodePoint codePoint = false := by
  have notLowLine : (codePoint == CodeUnit.underscore.toNat) = false :=
    beq_false_of_ne fun same => absurd (same ▸ above) (by decide)
  have notLetter : Unicode.isLetter codePoint = false :=
    Unicode.Ranges.contain_eq_false (by decide +kernel) above below
  have notNumber : Unicode.isNumber codePoint = false :=
    Unicode.Ranges.contain_eq_false (by decide) above below
  have notMark : Unicode.isMark codePoint = false :=
    Unicode.Ranges.contain_eq_false (by decide +kernel) above below
  rw [isIdentifierCodePoint, notLowLine, notLetter, notNumber, notMark]
  rfl

theorem isIdentifierCodePoint_of_isBlank {unit : CodeUnit} (blank : unit.isBlank = true) :
    isIdentifierCodePoint unit.toNat = false := by
  have member : unit ∈ CodeUnit.blanks := of_decide_eq_true blank
  have onBlanks : List.all CodeUnit.blanks
      (fun unit => !isIdentifierCodePoint unit.toNat) = true := by
    decide +kernel
  simpa using List.all_eq_true.mp onBlanks unit member

namespace Text

/-! ## One character -/

theorem toNat_charOfNat {codePoint : Nat} (valid : codePoint.isValidChar) :
    (Char.ofNat codePoint).toNat = codePoint := by
  rw [Char.ofNat, dif_pos valid]
  rfl

theorem startsInName_cons_of_plain {unit : CodeUnit} (plain : unit.isSurrogate = false)
    (rest : Text) : startsInName (unit :: rest) = isIdentifierCodePoint unit.toNat := by
  have notLead : unit.isLeadSurrogate = false := (Bool.or_eq_false_iff.mp plain).1
  cases rest with
  | nil => rfl
  | cons next rest => simp [startsInName, firstCodePoint?, notLead]

theorem startsInName_cons_of_isBlank {unit : CodeUnit} (blank : unit.isBlank = true)
    (rest : Text) : startsInName (unit :: rest) = false := by
  rw [startsInName_cons_of_plain (CodeUnit.isSurrogate_eq_false_of_isBlank blank),
    isIdentifierCodePoint_of_isBlank blank]

/-- A character in front of a text is read as a whole. -/
theorem skipNameCharacter?_append (character : Char) (rest : Text) :
    skipNameCharacter? (ofCodePoint character.toNat ++ rest) =
      if isIdentifierCodePoint character.toNat then some rest else none := by
  unfold skipNameCharacter?
  rcases ofCodePoint_cases character with
    ⟨unit, units, unitNat, plain⟩ | ⟨lead, trail, units, isLead, isTrail, isPair⟩
  · have notLead : unit.isLeadSurrogate = false := (Bool.or_eq_false_iff.mp plain).1
    have skipped : skipCodePoint (unit :: rest) = rest := by
      cases rest with
      | nil => rfl
      | cons next rest => simp [skipCodePoint, notLead]
    rw [units, List.singleton_append, startsInName_cons_of_plain plain, unitNat, skipped]
  · have starts : startsInName (lead :: trail :: rest) =
        isIdentifierCodePoint character.toNat := by
      simp [startsInName, firstCodePoint?, isLead, isTrail, isPair]
    have skipped : skipCodePoint (lead :: trail :: rest) = rest := by
      simp [skipCodePoint, isLead, isTrail]
    rw [units, List.cons_append, List.singleton_append, starts, skipped]

theorem ofCodePoint_pairCodePoint {lead trail : CodeUnit} (isLead : lead.isLeadSurrogate = true)
    (isTrail : trail.isTrailSurrogate = true) :
    (CodeUnit.pairCodePoint lead trail).isValidChar ∧
      ofCodePoint (CodeUnit.pairCodePoint lead trail) = [lead, trail] := by
  simp only [CodeUnit.isLeadSurrogate, CodeUnit.isTrailSurrogate, Bool.and_eq_true,
    decide_eq_true_eq] at isLead isTrail
  have leadBack : 0xD800 + (CodeUnit.pairCodePoint lead trail - 0x10000) / 0x400 = lead.toNat := by
    unfold CodeUnit.pairCodePoint
    omega
  have trailBack : 0xDC00 + (CodeUnit.pairCodePoint lead trail - 0x10000) % 0x400 =
      trail.toNat := by
    unfold CodeUnit.pairCodePoint
    omega
  have large : ¬CodeUnit.pairCodePoint lead trail < 0x10000 := by
    unfold CodeUnit.pairCodePoint
    omega
  constructor
  · right
    unfold CodeUnit.pairCodePoint
    omega
  · rw [ofCodePoint, if_neg large, leadBack, trailBack, UInt16.ofNat_toNat, UInt16.ofNat_toNat]

/-- An identifier character of a single unit. -/
theorem exists_ofCodePoint_eq_singleton {unit : CodeUnit}
    (isIdentifier : isIdentifierCodePoint unit.toNat = true) :
    ∃ character : Char, isIdentifierCodePoint character.toNat = true ∧
      ofCodePoint character.toNat = [unit] := by
  have small : unit.toNat < 0x10000 := unit.toNat_lt
  have valid : unit.toNat.isValidChar := by
    by_cases surrogate : 0xD800 ≤ unit.toNat ∧ unit.toNat ≤ 0xDFFF
    · rw [isIdentifierCodePoint_of_surrogate surrogate.1 surrogate.2] at isIdentifier
      cases isIdentifier
    · unfold Nat.isValidChar
      omega
  have same := toNat_charOfNat valid
  refine ⟨Char.ofNat unit.toNat, (congrArg isIdentifierCodePoint same).trans isIdentifier, ?_⟩
  rw [same, ofCodePoint, if_pos small, UInt16.ofNat_toNat]

/-- An identifier character of two units. -/
theorem exists_ofCodePoint_eq_pair {lead trail : CodeUnit} (isLead : lead.isLeadSurrogate = true)
    (isTrail : trail.isTrailSurrogate = true)
    (isIdentifier : isIdentifierCodePoint (CodeUnit.pairCodePoint lead trail) = true) :
    ∃ character : Char, isIdentifierCodePoint character.toNat = true ∧
      ofCodePoint character.toNat = [lead, trail] := by
  rcases ofCodePoint_pairCodePoint isLead isTrail with ⟨valid, units⟩
  have same := toNat_charOfNat valid
  refine ⟨Char.ofNat (CodeUnit.pairCodePoint lead trail),
    (congrArg isIdentifierCodePoint same).trans isIdentifier, ?_⟩
  rw [same, units]

/-- What a name is read by are the characters that may stand in it. -/
theorem skipNameCharacter?_eq_some_iff {text rest : Text} :
    skipNameCharacter? text = some rest ↔
      ∃ character : Char, isIdentifierCodePoint character.toNat = true ∧
        text = ofCodePoint character.toNat ++ rest := by
  constructor
  · intro read
    unfold skipNameCharacter? at read
    split at read
    · next starts =>
      cases read
      unfold startsInName at starts
      match text with
      | [] => cases starts
      | [unit] =>
          rcases exists_ofCodePoint_eq_singleton starts with ⟨character, isIdentifier, units⟩
          refine ⟨character, isIdentifier, ?_⟩
          rw [units, skipCodePoint, List.append_nil]
      | first :: second :: text =>
          rw [firstCodePoint?] at starts
          rw [skipCodePoint]
          split at starts
          · next isPair =>
            rw [Option.any_some] at starts
            rcases Bool.and_eq_true_iff.mp isPair with ⟨isLead, isTrail⟩
            rcases exists_ofCodePoint_eq_pair isLead isTrail starts with
              ⟨character, isIdentifier, units⟩
            refine ⟨character, isIdentifier, ?_⟩
            rw [units, if_pos isPair, List.cons_append, List.singleton_append]
          · next notPair =>
            rcases exists_ofCodePoint_eq_singleton starts with ⟨character, isIdentifier, units⟩
            refine ⟨character, isIdentifier, ?_⟩
            rw [units, if_neg notPair, List.singleton_append]
    · cases read
  · rintro ⟨character, isIdentifier, rfl⟩
    rw [skipNameCharacter?_append, if_pos isIdentifier]

theorem startsInName_iff {text : Text} :
    startsInName text = true ↔
      ∃ (character : Char) (rest : Text), isIdentifierCodePoint character.toNat = true ∧
        text = ofCodePoint character.toNat ++ rest := by
  constructor
  · intro starts
    have read : skipNameCharacter? text = some (skipCodePoint text) := if_pos starts
    rcases skipNameCharacter?_eq_some_iff.mp read with ⟨character, isIdentifier, split⟩
    exact ⟨character, _, isIdentifier, split⟩
  · rintro ⟨character, rest, isIdentifier, split⟩
    have read := skipNameCharacter?_eq_some_iff.mpr ⟨character, isIdentifier, split⟩
    unfold skipNameCharacter? at read
    split at read
    · assumption
    · cases read

theorem endsInName_cons_of_plain {unit : CodeUnit} (plain : unit.isSurrogate = false)
    (front : Text) : endsInName (unit :: front) = isIdentifierCodePoint unit.toNat := by
  have notTrail : unit.isTrailSurrogate = false := (Bool.or_eq_false_iff.mp plain).2
  cases front with
  | nil => rfl
  | cons previous front => simp [endsInName, lastCodePoint?, notTrail]

/-- A text that is given backwards ends in a name if its last character may stand in one. -/
theorem endsInName_iff {backwards : Text} :
    endsInName backwards = true ↔
      ∃ (character : Char) (front : Text), isIdentifierCodePoint character.toNat = true ∧
        backwards.reverse = front ++ ofCodePoint character.toNat := by
  constructor
  · intro ends
    unfold endsInName at ends
    match backwards with
    | [] => cases ends
    | [unit] =>
        rcases exists_ofCodePoint_eq_singleton ends with ⟨character, isIdentifier, units⟩
        refine ⟨character, [], isIdentifier, ?_⟩
        rw [units]
        rfl
    | last :: previous :: front =>
        rw [lastCodePoint?] at ends
        split at ends
        · next isPair =>
          rw [Option.any_some] at ends
          rcases Bool.and_eq_true_iff.mp isPair with ⟨isTrail, isLead⟩
          rcases exists_ofCodePoint_eq_pair isLead isTrail ends with
            ⟨character, isIdentifier, units⟩
          refine ⟨character, front.reverse, isIdentifier, ?_⟩
          rw [units, List.reverse_cons, List.reverse_cons, List.append_assoc, List.singleton_append]
        · rcases exists_ofCodePoint_eq_singleton ends with ⟨character, isIdentifier, units⟩
          refine ⟨character, (previous :: front).reverse, isIdentifier, ?_⟩
          rw [units, List.reverse_cons]
  · rintro ⟨character, front, isIdentifier, split⟩
    rw [← List.reverse_reverse backwards, split]
    rcases ofCodePoint_cases character with
      ⟨unit, units, unitNat, plain⟩ | ⟨lead, trail, units, isLead, isTrail, isPair⟩
    · rw [units, List.reverse_append, List.reverse_singleton, List.singleton_append,
        endsInName_cons_of_plain plain, unitNat, isIdentifier]
    · rw [units, List.reverse_append]
      simp [endsInName, lastCodePoint?, isLead, isTrail, isPair, isIdentifier]

/-! ### Blank units next to a name -/

/-- What a text starts with is not changed by a blank unit behind it. -/
theorem startsInName_append_cons_of_isBlank {unit : CodeUnit} (blank : unit.isBlank = true)
    (text rest : Text) : startsInName (text ++ unit :: rest) = startsInName text := by
  have plain := CodeUnit.isSurrogate_eq_false_of_isBlank blank
  have notTrail : unit.isTrailSurrogate = false := (Bool.or_eq_false_iff.mp plain).2
  match text with
  | [] => exact startsInName_cons_of_isBlank blank rest
  | [first] => simp [startsInName, firstCodePoint?, notTrail]
  | first :: second :: text => rfl

/-- What a text ends with is not changed by a blank unit in front of it. -/
theorem endsInName_append_cons_of_isBlank {unit : CodeUnit} (blank : unit.isBlank = true)
    (backwards front : Text) : endsInName (backwards ++ unit :: front) = endsInName backwards := by
  have plain := CodeUnit.isSurrogate_eq_false_of_isBlank blank
  have notLead : unit.isLeadSurrogate = false := (Bool.or_eq_false_iff.mp plain).1
  match backwards with
  | [] =>
      rw [List.nil_append, endsInName_cons_of_plain plain, isIdentifierCodePoint_of_isBlank blank]
      rfl
  | [last] => simp [endsInName, lastCodePoint?, notLead]
  | last :: previous :: backwards => rfl

/-! ## Whole names -/

/-- The text is a name: one identifier character or more, and nothing else. -/
def IsName (text : Text) : Prop :=
  ∃ characters : List Char, characters ≠ [] ∧
    (∀ character ∈ characters, isIdentifierCodePoint character.toNat = true) ∧
    text = ofChars characters

theorem ofChars_cons (character : Char) (characters : List Char) :
    ofChars (character :: characters) = ofCodePoint character.toNat ++ ofChars characters :=
  rfl

theorem skipName_of_stops {text : Text} (stops : startsInName text = false) :
    skipName text = text := by
  rw [skipName_eq, skipNameCharacter?, if_neg (Bool.eq_false_iff.mp stops)]

theorem skipName_of_read {text rest : Text} (read : skipNameCharacter? text = some rest) :
    skipName text = skipName rest := by
  rw [skipName_eq, read]

/-- A name is skipped up to a text that does not go on with it. -/
theorem skipName_append {characters : List Char} {rest : Text}
    (identifiers : ∀ character ∈ characters, isIdentifierCodePoint character.toNat = true)
    (stops : startsInName rest = false) : skipName (ofChars characters ++ rest) = rest := by
  induction characters with
  | nil => exact skipName_of_stops stops
  | cons character characters ih =>
      have read : skipNameCharacter? (ofChars (character :: characters) ++ rest) =
          some (ofChars characters ++ rest) := by
        rw [ofChars_cons, List.append_assoc, skipNameCharacter?_append,
          if_pos (identifiers character List.mem_cons_self)]
      rw [skipName_of_read read]
      exact ih fun each member => identifiers each (List.mem_cons_of_mem _ member)

theorem length_lt_of_skipNameCharacter? {text rest : Text}
    (read : skipNameCharacter? text = some rest) : rest.length < text.length := by
  rcases skipNameCharacter?_eq_some_iff.mp read with ⟨character, _, split⟩
  have positive : 0 < (ofCodePoint character.toNat).length := by
    unfold ofCodePoint
    split <;> simp
  rw [split, List.length_append]
  omega

/-- What is skipped are identifier characters. -/
theorem exists_eq_append_skipName (text : Text) :
    ∃ characters : List Char,
      (∀ character ∈ characters, isIdentifierCodePoint character.toNat = true) ∧
      text = ofChars characters ++ skipName text := by
  induction size : text.length using Nat.strongRecOn generalizing text with
  | ind length ih =>
      cases read : skipNameCharacter? text with
      | none =>
          refine ⟨[], List.forall_mem_nil _, ?_⟩
          rw [skipName_eq, read]
          rfl
      | some rest =>
          rcases skipNameCharacter?_eq_some_iff.mp read with ⟨character, isIdentifier, split⟩
          have shorter : rest.length < length := size ▸ length_lt_of_skipNameCharacter? read
          rcases ih rest.length shorter rest rfl with ⟨characters, identifiers, restSplit⟩
          refine ⟨character :: characters,
            List.forall_mem_cons.mpr ⟨isIdentifier, identifiers⟩, ?_⟩
          rw [skipName_of_read read, ofChars_cons, List.append_assoc, ← restSplit, split]

/-- Behind a name that was skipped no identifier character follows. -/
theorem startsInName_skipName (text : Text) : startsInName (skipName text) = false := by
  induction size : text.length using Nat.strongRecOn generalizing text with
  | ind length ih =>
      cases read : skipNameCharacter? text with
      | none =>
          rw [skipName_eq, read]
          unfold skipNameCharacter? at read
          split at read
          · cases read
          · next stops => exact Bool.eq_false_iff.mpr stops
      | some rest =>
          rw [skipName_of_read read]
          exact ih rest.length (size ▸ length_lt_of_skipNameCharacter? read) rest rfl

/-- A text that starts with a name is read from behind the longest one. -/
theorem exists_name_of_startsInName {text : Text} (starts : startsInName text = true) :
    ∃ name, IsName name ∧ text = name ++ skipName text := by
  have read : skipNameCharacter? text = some (skipCodePoint text) := if_pos starts
  rcases skipNameCharacter?_eq_some_iff.mp read with ⟨character, isIdentifier, split⟩
  rcases exists_eq_append_skipName (skipCodePoint text) with ⟨characters, identifiers, restSplit⟩
  refine ⟨ofChars (character :: characters), ⟨character :: characters, List.cons_ne_nil _ _,
    List.forall_mem_cons.mpr ⟨isIdentifier, identifiers⟩, rfl⟩, ?_⟩
  rw [skipName_of_read read, ofChars_cons, List.append_assoc, ← restSplit, ← split]

theorem startsInName_of_isName {name : Text} (isName : IsName name) (rest : Text) :
    startsInName (name ++ rest) = true := by
  rcases isName with ⟨characters, someCharacter, identifiers, rfl⟩
  rcases List.exists_cons_of_ne_nil someCharacter with ⟨character, others, rfl⟩
  apply startsInName_iff.mpr
  refine ⟨character, ofChars others ++ rest, identifiers character List.mem_cons_self, ?_⟩
  rw [ofChars_cons, List.append_assoc]

theorem skipName_of_isName {name rest : Text} (isName : IsName name)
    (stops : startsInName rest = false) : skipName (name ++ rest) = rest := by
  rcases isName with ⟨characters, _, identifiers, rfl⟩
  exact skipName_append identifiers stops

end Text
end JuliaLint

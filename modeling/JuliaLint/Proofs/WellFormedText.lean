import JuliaLint.Tally
import JuliaLint.Text.Blank
import JuliaLint.Text.Quoted

namespace JuliaLint

/-!
# Well-formed texts and their pieces

A text is well formed if every surrogate belongs to a pair.  Its characters are
those of its two parts wherever it is cut, unless the cut falls between the
halves of a pair.  So a text is put together from well-formed pieces, and falls
into well-formed pieces at every cut that has a plain unit on one side, such as
a quotation mark, blank space or a letter of a keyword.

What messages are made of is well formed for the same reasons: every string is,
and trimming, escaping and joining keep pairs together.
-/

namespace CodeUnit

def isSurrogate (unit : CodeUnit) : Bool :=
  unit.isLeadSurrogate || unit.isTrailSurrogate

theorem isSurrogate_eq_false_of_isBlank {unit : CodeUnit} (blank : unit.isBlank = true) :
    unit.isSurrogate = false := by
  have member : unit ∈ blanks := of_decide_eq_true blank
  have plain : blanks.all (fun unit => !unit.isSurrogate) = true := by decide
  simpa using List.all_eq_true.mp plain unit member

theorem isLeadSurrogate_eq_false_of_isTrailSurrogate {unit : CodeUnit}
    (trail : unit.isTrailSurrogate = true) : unit.isLeadSurrogate = false := by
  unfold isTrailSurrogate at trail
  unfold isLeadSurrogate
  simp only [Bool.and_eq_true, decide_eq_true_eq, Bool.and_eq_false_iff, decide_eq_false_iff_not]
    at trail ⊢
  omega

end CodeUnit

namespace Text

/-! ## Cutting and joining -/

/-- Whether a surrogate pair lies across the seam of two texts. -/
def cutsPair (front back : Text) : Bool :=
  front.getLast?.any CodeUnit.isLeadSurrogate && back.head?.any CodeUnit.isTrailSurrogate

/-- Whether an offset falls between the two halves of a surrogate pair. -/
def cutsPairAt (text : Text) (offset : Nat) : Bool :=
  cutsPair (text.take offset) (text.drop offset)

theorem cutsPair_of_cons {unit : CodeUnit} {front back : Text}
    (uncut : cutsPair (unit :: front) back = false) : cutsPair front back = false := by
  cases front with
  | nil => rfl
  | cons next front => exact uncut

/-- The characters of a text that is cut between characters. -/
theorem characters_append {front back : Text} (uncut : cutsPair front back = false) :
    characters (front ++ back) = characters front ++ characters back := by
  fun_induction characters front with
  | case1 => rfl
  | case2 unit =>
      cases back with
      | nil => rfl
      | cons next back =>
          have notPair : (unit.isLeadSurrogate && next.isTrailSurrogate) = false := uncut
          simp [characters, notPair]
  | case3 first second text isPair ih =>
      have later := ih (cutsPair_of_cons (cutsPair_of_cons uncut))
      simp [characters, isPair, later]
  | case4 first second text notPair ih =>
      have later := ih (cutsPair_of_cons uncut)
      simp only [List.cons_append] at later ⊢
      rw [characters, if_neg notPair, later]

theorem isWellFormed_append {front back : Text} (uncut : cutsPair front back = false) :
    isWellFormed (front ++ back) = (isWellFormed front && isWellFormed back) := by
  unfold isWellFormed
  rw [characters_append uncut, List.all_append]

theorem cutsPair_of_isWellFormed {back : Text} (wellFormed : isWellFormed back = true)
    (front : Text) : cutsPair front back = false := by
  cases back with
  | nil => exact Bool.and_false _
  | cons unit back =>
      cases trail : unit.isTrailSurrogate with
      | false => simp [cutsPair, trail]
      | true =>
          have notLead := CodeUnit.isLeadSurrogate_eq_false_of_isTrailSurrogate trail
          cases back <;> simp [isWellFormed, characters, unitChar?, trail, notLead] at wellFormed

/-- Well-formed pieces make a well-formed text. -/
theorem isWellFormed_append_of {front back : Text} (frontWhole : isWellFormed front = true)
    (backWhole : isWellFormed back = true) : isWellFormed (front ++ back) = true := by
  rw [isWellFormed_append (cutsPair_of_isWellFormed backWhole front), frontWhole, backWhole]
  rfl

/-! ## Cuts beside a plain unit -/

section Plain

variable {unit : CodeUnit} (plain : unit.isSurrogate = false)

include plain

theorem cutsPair_cons_of_plain (front back : Text) : cutsPair front (unit :: back) = false := by
  have notTrail : unit.isTrailSurrogate = false := (Bool.or_eq_false_iff.mp plain).2
  simp [cutsPair, notTrail]

theorem cutsPair_append_singleton_of_plain (front back : Text) :
    cutsPair (front ++ [unit]) back = false := by
  have notLead : unit.isLeadSurrogate = false := (Bool.or_eq_false_iff.mp plain).1
  simp [cutsPair, notLead]

theorem isWellFormed_singleton_of_plain : isWellFormed [unit] = true := by
  have isCharacter : unitChar? unit = some (Char.ofNat unit.toNat) :=
    if_neg (Bool.eq_false_iff.mp plain)
  simp [isWellFormed, characters, isCharacter]

theorem isWellFormed_cons_of_plain (back : Text) :
    isWellFormed (unit :: back) = isWellFormed back := by
  have uncut : cutsPair [unit] back = false := cutsPair_append_singleton_of_plain plain [] back
  rw [← List.singleton_append, isWellFormed_append uncut, isWellFormed_singleton_of_plain plain,
    Bool.true_and]

/-- A plain unit parts a text into two that are well formed if the text is. -/
theorem isWellFormed_append_cons_of_plain (front back : Text) :
    isWellFormed (front ++ unit :: back) = (isWellFormed front && isWellFormed back) := by
  rw [isWellFormed_append (cutsPair_cons_of_plain plain front back),
    isWellFormed_cons_of_plain plain]

end Plain

def isPlain (text : Text) : Bool :=
  text.all fun unit => !unit.isSurrogate

theorem isPlain_of_isBlank {text : Text} (blank : isBlank text = true) : isPlain text = true := by
  apply List.all_eq_true.mpr
  intro unit member
  have unitBlank := List.all_eq_true.mp blank unit member
  rw [CodeUnit.isSurrogate_eq_false_of_isBlank unitBlank]
  rfl

/-- No pair reaches into a plain word from the left. -/
theorem cutsPair_before_isPlain {word : Text} (plain : isPlain word = true) (nonempty : word ≠ [])
    (front back : Text) : cutsPair front (word ++ back) = false := by
  cases word with
  | nil => exact absurd rfl nonempty
  | cons unit word =>
      have parts : unit.isSurrogate = false ∧ isPlain word = true := by
        simpa [isPlain] using plain
      exact cutsPair_cons_of_plain parts.1 front (word ++ back)

/-- Nor from the right. -/
theorem cutsPair_behind_isPlain {word : Text} (plain : isPlain word = true) (nonempty : word ≠ [])
    (front back : Text) : cutsPair (front ++ word) back = false := by
  rcases List.eq_nil_or_concat word with rfl | ⟨word, unit, rfl⟩
  · exact absurd rfl nonempty
  · have parts : isPlain word = true ∧ unit.isSurrogate = false := by
      simpa [isPlain] using plain
    rw [List.concat_eq_append, ← List.append_assoc]
    exact cutsPair_append_singleton_of_plain parts.2 (front ++ word) back

/-- A plain start can be taken away. -/
theorem isWellFormed_append_of_isPlain_left {front : Text} (plain : isPlain front = true)
    (back : Text) : isWellFormed (front ++ back) = isWellFormed back := by
  induction front with
  | nil => rfl
  | cons unit front ih =>
      have parts : unit.isSurrogate = false ∧ isPlain front = true := by
        simpa [isPlain] using plain
      rw [List.cons_append, isWellFormed_cons_of_plain parts.1, ih parts.2]

theorem isWellFormed_of_isPlain {text : Text} (plain : isPlain text = true) :
    isWellFormed text = true := by
  have whole := isWellFormed_append_of_isPlain_left plain []
  rwa [List.append_nil] at whole

/-- So can a plain end. -/
theorem isWellFormed_append_of_isPlain_right {back : Text} (plain : isPlain back = true)
    (front : Text) : isWellFormed (front ++ back) = isWellFormed front := by
  have whole := isWellFormed_of_isPlain plain
  rw [isWellFormed_append (cutsPair_of_isWellFormed whole front), whole, Bool.and_true]

/-! ## Trimming -/

theorem isWellFormed_skipBlanks (text : Text) :
    isWellFormed (skipBlanks text) = isWellFormed text := by
  have plain : isPlain (leadingBlanks text) = true := isPlain_of_isBlank List.all_takeWhile
  rw [← isWellFormed_append_of_isPlain_left plain, leadingBlanks_append_skipBlanks]

theorem isWellFormed_trim (text : Text) : isWellFormed (trim text) = isWellFormed text := by
  have split : skipBlanks text =
      trim text ++ (leadingBlanks (skipBlanks text).reverse).reverse := by
    rw [trim, ← List.reverse_append, leadingBlanks_append_skipBlanks, List.reverse_reverse]
  have blank : isBlank (leadingBlanks (skipBlanks text).reverse).reverse = true := by
    rw [isBlank, List.all_reverse]
    exact List.all_takeWhile
  rw [← isWellFormed_skipBlanks text, split,
    isWellFormed_append_of_isPlain_right (isPlain_of_isBlank blank)]

/-! ## Strings and lists of texts -/

theorem isWellFormed_flatMap {α : Type} {items : List α} {textOf : α → Text}
    (whole : ∀ item ∈ items, isWellFormed (textOf item) = true) :
    isWellFormed (items.flatMap textOf) = true := by
  induction items with
  | nil => rfl
  | cons item items ih =>
      rw [List.flatMap_cons]
      apply isWellFormed_append_of (whole item List.mem_cons_self)
      exact ih fun later member => whole later (List.mem_cons_of_mem _ member)

theorem isWellFormed_pair {lead trail : CodeUnit} (isLead : lead.isLeadSurrogate = true)
    (isTrail : trail.isTrailSurrogate = true) : isWellFormed [lead, trail] = true := by
  simp [isWellFormed, characters, isLead, isTrail]

/-- A character is one plain unit, or a pair that stands for it. -/
theorem ofCodePoint_cases (character : Char) :
    (∃ unit : CodeUnit, ofCodePoint character.toNat = [unit] ∧ unit.toNat = character.toNat ∧
        unit.isSurrogate = false) ∨
      ∃ lead trail : CodeUnit, ofCodePoint character.toNat = [lead, trail] ∧
        lead.isLeadSurrogate = true ∧ trail.isTrailSurrogate = true ∧
        CodeUnit.pairCodePoint lead trail = character.toNat := by
  have valid : character.toNat < 0xD800 ∨ 0xDFFF < character.toNat ∧ character.toNat < 0x110000 :=
    character.valid
  unfold ofCodePoint
  split
  · next small =>
    have unitNat : (UInt16.ofNat character.toNat).toNat = character.toNat :=
      UInt16.toNat_ofNat_of_lt small
    refine Or.inl ⟨_, rfl, unitNat, ?_⟩
    simp only [CodeUnit.isSurrogate, CodeUnit.isLeadSurrogate, CodeUnit.isTrailSurrogate, unitNat,
      Bool.or_eq_false_iff, Bool.and_eq_false_iff, decide_eq_false_iff_not]
    omega
  · next large =>
    have leadNat : (UInt16.ofNat (0xD800 + (character.toNat - 0x10000) / 0x400)).toNat =
        0xD800 + (character.toNat - 0x10000) / 0x400 :=
      UInt16.toNat_ofNat_of_lt (by simp only [UInt16.size]; omega)
    have trailNat : (UInt16.ofNat (0xDC00 + (character.toNat - 0x10000) % 0x400)).toNat =
        0xDC00 + (character.toNat - 0x10000) % 0x400 :=
      UInt16.toNat_ofNat_of_lt (by simp only [UInt16.size]; omega)
    refine Or.inr ⟨_, _, rfl, ?_, ?_, ?_⟩
    · simp only [CodeUnit.isLeadSurrogate, leadNat, Bool.and_eq_true, decide_eq_true_eq]
      omega
    · simp only [CodeUnit.isTrailSurrogate, trailNat, Bool.and_eq_true, decide_eq_true_eq]
      omega
    · unfold CodeUnit.pairCodePoint
      rw [leadNat, trailNat]
      omega

theorem isWellFormed_ofCodePoint (character : Char) :
    isWellFormed (ofCodePoint character.toNat) = true := by
  rcases ofCodePoint_cases character with
    ⟨unit, units, _, plain⟩ | ⟨lead, trail, units, isLead, isTrail, _⟩
  · rw [units]
    exact isWellFormed_singleton_of_plain plain
  · rw [units]
    exact isWellFormed_pair isLead isTrail

theorem isWellFormed_ofString (string : String) : isWellFormed (ofString string) = true :=
  isWellFormed_flatMap fun character _ => isWellFormed_ofCodePoint character

theorem isWellFormed_ofNat (number : Nat) : isWellFormed (ofNat number) = true :=
  isWellFormed_flatMap fun character _ => isWellFormed_ofCodePoint character

/-- A text between two strings, as most messages show one. -/
theorem isWellFormed_enclosed (opening : String) {text : Text}
    (whole : isWellFormed text = true) (closing : String) :
    isWellFormed (ofString opening ++ text ++ ofString closing) = true :=
  isWellFormed_append_of (isWellFormed_append_of (isWellFormed_ofString opening) whole)
    (isWellFormed_ofString closing)

theorem isWellFormed_join {separator : Text} (separatorWhole : isWellFormed separator = true)
    {items : List Text} (whole : ∀ item ∈ items, isWellFormed item = true) :
    isWellFormed (join separator items) = true := by
  unfold join
  induction items with
  | nil => rfl
  | cons first items ih =>
      have firstWhole := whole first List.mem_cons_self
      cases items with
      | nil => rwa [List.intercalate_singleton]
      | cons second items =>
          rw [List.intercalate_cons_cons]
          apply isWellFormed_append_of (isWellFormed_append_of firstWhole separatorWhole)
          exact ih fun later member => whole later (List.mem_cons_of_mem _ member)

/-! ## Escaping -/

theorem escapeUnit_of_isSurrogate {unit : CodeUnit} (surrogate : unit.isSurrogate = true) :
    escapeUnit unit = [unit] := by
  have differs : ∀ escaped : CodeUnit, escaped.isSurrogate = false → unit ≠ escaped := by
    rintro escaped plain rfl
    rw [surrogate] at plain
    cases plain
  rw [escapeUnit, if_neg (differs _ (by decide)), if_neg (differs _ (by decide)),
    if_neg (differs _ (by decide)), if_neg (differs _ (by decide))]

theorem isWellFormed_escapeUnit {unit : CodeUnit} (plain : unit.isSurrogate = false) :
    isWellFormed (escapeUnit unit) = true := by
  unfold escapeUnit
  split
  · exact isWellFormed_ofString _
  split
  · exact isWellFormed_ofString _
  split
  · exact isWellFormed_ofString _
  split
  · exact isWellFormed_ofString _
  · exact isWellFormed_singleton_of_plain plain

theorem isSurrogate_eq_false_of_unitChar? {unit : CodeUnit}
    (isCharacter : (unitChar? unit).isSome = true) : unit.isSurrogate = false := by
  unfold unitChar? at isCharacter
  split at isCharacter
  · cases isCharacter
  · next plain => exact Bool.eq_false_iff.mpr plain

/-- Escapes stand for plain units only, so pairs stay together. -/
theorem isWellFormed_escape {text : Text} (whole : isWellFormed text = true) :
    isWellFormed (escape text) = true := by
  unfold isWellFormed at whole
  fun_induction characters text with
  | case1 => rfl
  | case2 unit =>
      have plain : unit.isSurrogate = false :=
        isSurrogate_eq_false_of_unitChar? (by simpa using whole)
      rw [escape, List.flatMap_singleton]
      exact isWellFormed_escapeUnit plain
  | case3 lead trail text isPair ih =>
      rcases Bool.and_eq_true_iff.mp isPair with ⟨isLead, isTrail⟩
      have leadKept := escapeUnit_of_isSurrogate (Bool.or_eq_true_iff.mpr (Or.inl isLead))
      have trailKept := escapeUnit_of_isSurrogate (Bool.or_eq_true_iff.mpr (Or.inr isTrail))
      have later : isWellFormed (escape text) = true := ih (by simpa using whole)
      have split : escape (lead :: trail :: text) = [lead, trail] ++ escape text := by
        simp only [escape, List.flatMap_cons, leadKept, trailKept, List.cons_append,
          List.nil_append]
      rw [split]
      exact isWellFormed_append_of (isWellFormed_pair isLead isTrail) later
  | case4 first second text notPair ih =>
      have parts : (unitChar? first).isSome = true ∧
          (characters (second :: text)).all Option.isSome = true := by
        simpa using whole
      rw [escape, List.flatMap_cons]
      exact isWellFormed_append_of
        (isWellFormed_escapeUnit (isSurrogate_eq_false_of_unitChar? parts.1)) (ih parts.2)

theorem isWellFormed_quotedList {items : List Text}
    (whole : ∀ item ∈ items, isWellFormed item = true) :
    isWellFormed (quotedList items) = true := by
  have quotedWhole : ∀ item ∈ items.map quoted, isWellFormed item = true := by
    intro item member
    rcases List.mem_map.mp member with ⟨original, originalMember, rfl⟩
    exact isWellFormed_enclosed _ (isWellFormed_escape (whole original originalMember)) _
  exact isWellFormed_enclosed _ (isWellFormed_join (isWellFormed_ofString _) quotedWhole) _

end Text

theorem Tally.isWellFormed_render (tally : Tally Nat) :
    Text.isWellFormed (tally.render Text.ofNat) = true := by
  refine Text.isWellFormed_enclosed _ (Text.isWellFormed_join (Text.isWellFormed_ofString _) ?_) _
  intro entry member
  rcases List.mem_map.mp member with ⟨⟨value, times⟩, _, rfl⟩
  exact Text.isWellFormed_append_of
    (Text.isWellFormed_append_of (Text.isWellFormed_ofNat value) (Text.isWellFormed_ofString _))
    (Text.isWellFormed_ofNat times)

end JuliaLint

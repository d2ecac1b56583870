import Mathlib.Data.Set.Function
import JuliaLint.Proofs.QuotedSegments
import JuliaLint.Proofs.Seams

namespace JuliaLint

/-!
# Reading a quoted list back

A quoted list can be told apart into its items because escaping leaves the
apostrophes alone and adds none.  If no item holds an apostrophe, those of the
list are the marks around its items, and every second piece between them is the
written form of an item.  An escape is a backslash and one more unit, and since
a backslash is itself written as an escape, each backslash of a written form
starts one.

The items that messages list are the contents of character literals and calls
with a numeric literal.  Neither holds an apostrophe.
-/

namespace Text

def replaceUnit (replaced : CodeUnit) (written text : Text) : Text :=
  text.flatMap fun unit => if unit = replaced then written else [unit]

/-- The unit that a backslash and the given unit stand for. -/
def escapedUnit (unit : CodeUnit) : CodeUnit :=
  if unit = 0x6E then CodeUnit.lineFeed
  else if unit = 0x72 then CodeUnit.carriageReturn
  else if unit = 0x74 then CodeUnit.tab
  else unit

/-- The text with every escape replaced by what it stands for. -/
def unescape : Text → Text
  | [] => []
  | [unit] => [unit]
  | first :: second :: text =>
      if first = CodeUnit.backslash then
        escapedUnit second :: unescape text
      else
        first :: unescape (second :: text)

/-- The pieces between an opening and a closing mark, where marks alternate. -/
def everySecond : List Text → List Text
  | [] => []
  | [_] => []
  | _ :: piece :: pieces => piece :: everySecond pieces

def quotedItems (text : Text) : List Text :=
  (everySecond (splitWhere MultiCharLiteral.isApostrophe text)).map unescape

/-! ## Escapes -/

/--
Escaping is done unit by unit, and the same comes out of four replacements one
after the other.  The backslash goes first: the later replacements write
backslashes that must not be escaped again.
-/
theorem escape_eq_replacements (text : Text) :
    escape text =
      replaceUnit CodeUnit.tab "\\t" (replaceUnit CodeUnit.carriageReturn "\\r"
        (replaceUnit CodeUnit.lineFeed "\\n" (replaceUnit CodeUnit.backslash "\\\\" text))) := by
  unfold escape replaceUnit
  rw [List.flatMap_assoc, List.flatMap_assoc, List.flatMap_assoc]
  congr 1
  funext unit
  unfold escapeUnit
  split
  · decide
  split
  · next same => rw [same]; decide
  split
  · next same => rw [same]; decide
  split
  · next same => rw [same]; decide
  · simp_all

/-- A unit is written as itself, or as a backslash and one unit that stands for it. -/
theorem escapeUnit_cases (unit : CodeUnit) :
    unit ≠ CodeUnit.backslash ∧ escapeUnit unit = [unit] ∨
      ∃ written, escapeUnit unit = [CodeUnit.backslash, written] ∧
        escapedUnit written = unit ∧ written ≠ CodeUnit.singleQuote := by
  unfold escapeUnit
  split
  · next same => exact Or.inr ⟨0x5C, rfl, same ▸ rfl, by decide⟩
  split
  · next same => exact Or.inr ⟨0x6E, rfl, same ▸ rfl, by decide⟩
  split
  · next same => exact Or.inr ⟨0x72, rfl, same ▸ rfl, by decide⟩
  split
  · next same => exact Or.inr ⟨0x74, rfl, same ▸ rfl, by decide⟩
  · next plain _ _ _ => exact Or.inl ⟨plain, rfl⟩

theorem unescape_cons_of_ne {unit : CodeUnit} (plain : unit ≠ CodeUnit.backslash) (text : Text) :
    unescape (unit :: text) = unit :: unescape text := by
  cases text with
  | nil => rfl
  | cons next text => rw [unescape, if_neg plain]

/-- What is written for a unit is read as that unit, whatever follows. -/
theorem unescape_escapeUnit_append (unit : CodeUnit) (text : Text) :
    unescape (escapeUnit unit ++ text) = unit :: unescape text := by
  rcases escapeUnit_cases unit with ⟨plain, itself⟩ | ⟨written, escaped, meant, _⟩
  · rw [itself, List.singleton_append, unescape_cons_of_ne plain]
  · rw [escaped, List.cons_append, List.singleton_append, unescape, if_pos rfl, meant]

theorem unescape_escape (text : Text) : unescape (escape text) = text := by
  induction text with
  | nil => rfl
  | cons unit text ih =>
      rw [escape, List.flatMap_cons, unescape_escapeUnit_append]
      exact congrArg (unit :: ·) ih

theorem singleQuote_not_mem_escape {text : Text} (absent : CodeUnit.singleQuote ∉ text) :
    CodeUnit.singleQuote ∉ escape text := by
  intro member
  rcases List.mem_flatMap.mp member with ⟨unit, inText, inWritten⟩
  rcases escapeUnit_cases unit with ⟨_, itself⟩ | ⟨written, escaped, _, notMark⟩
  · rw [itself, List.mem_singleton] at inWritten
    exact absent (inWritten ▸ inText)
  · rw [escaped, List.mem_pair] at inWritten
    rcases inWritten with isBackslash | isWritten
    · exact absurd isBackslash (by decide)
    · exact notMark isWritten.symm

/-! ## Lists -/

theorem join_cons (separator first : Text) (items : List Text) :
    join separator (first :: items) =
      first ++ ((if items = [] then [] else separator) ++ join separator items) := by
  cases items with
  | nil => simp [join]
  | cons second items => simp [join, List.intercalate_cons_cons]

/-- The marks of a quoted list enclose the written forms of its items. -/
theorem everySecond_splitWhere_join {items : List Text}
    (plain : ∀ item ∈ items, CodeUnit.singleQuote ∉ item) {opening : Text}
    (opens : CodeUnit.singleQuote ∉ opening) :
    everySecond (splitWhere MultiCharLiteral.isApostrophe
        (opening ++ (join ", " (items.map quoted) ++ "]"))) = items.map escape := by
  induction items generalizing opening with
  | nil =>
      have inner := MultiCharLiteral.inner_of_not_mem opens
      have closing : splitWhere MultiCharLiteral.isApostrophe "]" = [Text.ofString "]"] := by decide
      rw [show join ", " (List.map quoted []) ++ Text.ofString "]" = "]" from rfl,
        splitWhere_append inner closing]
      rfl
  | cons item items ih =>
      have itemPlain := singleQuote_not_mem_escape (plain item List.mem_cons_self)
      have later := fun each member => plain each (List.mem_cons_of_mem _ member)
      have gap : CodeUnit.singleQuote ∉
          (if items.map quoted = [] then ([] : Text) else Text.ofString ", ") := by
        split <;> decide
      have split : opening ++ (join ", " ((item :: items).map quoted) ++ "]") =
          opening ++ CodeUnit.singleQuote :: (escape item ++ CodeUnit.singleQuote ::
            ((if items.map quoted = [] then [] else Text.ofString ", ") ++
              (join ", " (items.map quoted) ++ "]"))) := by
        rw [List.map_cons, join_cons, quoted]
        simp only [List.append_assoc]
        rfl
      rw [split,
        splitWhere_append_cons (MultiCharLiteral.inner_of_not_mem opens) rfl,
        splitWhere_append_cons (MultiCharLiteral.inner_of_not_mem itemPlain) rfl, everySecond,
        ih later gap, List.map_cons]

theorem quotedItems_quotedList {items : List Text}
    (plain : ∀ item ∈ items, CodeUnit.singleQuote ∉ item) :
    quotedItems (quotedList items) = items := by
  have opens : CodeUnit.singleQuote ∉ Text.ofString "[" := by decide
  rw [quotedItems, quotedList, List.append_assoc, everySecond_splitWhere_join plain opens,
    List.map_map]
  exact (List.map_congr_left fun item _ => unescape_escape item).trans (List.map_id items)

theorem mem_join {separator : Text} {items : List Text} {unit : CodeUnit}
    (member : unit ∈ join separator items) :
    unit ∈ separator ∨ ∃ item ∈ items, unit ∈ item := by
  induction items with
  | nil => cases member
  | cons first items ih =>
      rw [join_cons, List.mem_append, List.mem_append] at member
      rcases member with inFirst | inGap | inLater
      · exact Or.inr ⟨first, List.mem_cons_self, inFirst⟩
      · split at inGap
        · cases inGap
        · exact Or.inl inGap
      · rcases ih inLater with inSeparator | ⟨item, listed, inItem⟩
        · exact Or.inl inSeparator
        · exact Or.inr ⟨item, List.mem_cons_of_mem _ listed, inItem⟩

/-- No line feed, carriage return or tab stands in a quoted list. -/
theorem quotedList_visible (items : List Text) : (quotedList items).all isVisible = true := by
  have quotedVisible : ∀ item : Text, (quoted item).all isVisible = true := by
    intro item
    rw [quoted, List.all_append, List.all_append, escape_visible]
    decide
  have joinVisible : (join ", " (items.map quoted)).all isVisible = true := by
    rw [List.all_eq_true]
    intro unit member
    rcases mem_join member with inSeparator | ⟨item, listed, inItem⟩
    · exact List.all_eq_true.mp (by decide : (Text.ofString ", ").all isVisible = true) unit
        inSeparator
    · rcases List.mem_map.mp listed with ⟨original, _, rfl⟩
      exact List.all_eq_true.mp (quotedVisible original) unit inItem
  rw [quotedList, List.all_append, List.all_append, joinVisible]
  decide

theorem not_mem_quotedList_of_not_isVisible {unit : CodeUnit} (hidden : isVisible unit = false)
    (items : List Text) : unit ∉ quotedList items := by
  intro member
  rw [List.all_eq_true.mp (quotedList_visible items) unit member] at hidden
  cases hidden

end Text

/-! ## The items that messages list -/

theorem MultiCharLiteral.singleQuote_not_mem_capture {source : Text} {occurrence : Occurrence Text}
    (listed : occurrence ∈ literal.occurrences source) :
    CodeUnit.singleQuote ∉ occurrence.capture :=
  (literal_eq_some_iff.mp (Pattern.read_of_mem_occurrences literal_advances listed).2).1

/-- A call holds a numeric literal and nothing else. -/
theorem RedundantConversion.eq_numeral_of_call {before matched rest : Text}
    (found : call before (matched ++ rest) = some ((), rest)) :
    ∃ numeral : Text, (∀ unit ∈ numeral, isNumeral unit = true) ∧
      matched = "T(" ++ (numeral ++ [CodeUnit.closingParenthesis]) := by
  simp only [call, Option.bind_eq_bind, Option.bind_eq_some_iff] at found
  rcases found with ⟨behind, openingRead, found⟩
  split at found
  · cases found
  · rcases Option.bind_eq_some_iff.mp found with ⟨stop, closingRead, same⟩
    cases same
    have closed : behind.dropWhile isNumeral = CodeUnit.closingParenthesis :: rest :=
      Text.after?_eq_some_iff.mp closingRead
    have whole : matched ++ rest =
        "T(" ++ (behind.takeWhile isNumeral ++ [CodeUnit.closingParenthesis]) ++ rest := by
      rw [Text.after?_eq_some_iff.mp openingRead, List.append_assoc, List.append_assoc,
        List.singleton_append, ← closed, List.takeWhile_append_dropWhile]
    exact ⟨behind.takeWhile isNumeral, List.all_eq_true.mp List.all_takeWhile,
      List.append_cancel_right whole⟩

theorem RedundantConversion.singleQuote_not_mem_matched {source : Text}
    {occurrence : Occurrence Unit} (listed : occurrence ∈ call.occurrences source) :
    CodeUnit.singleQuote ∉ occurrence.matched := by
  rcases Pattern.eq_append_of_mem_scanFrom call_advances listed with ⟨lead, rest, _, _, read⟩
  rcases eq_numeral_of_call read with ⟨numeral, numeric, matched⟩
  intro member
  rw [matched, List.mem_append, List.mem_append] at member
  rcases member with inOpening | inNumeral | inClosing
  · exact absurd inOpening (by decide)
  · exact absurd (numeric _ inNumeral) (by decide)
  · exact absurd inClosing (by decide)

/--
A quoted list can be read back.  If no item holds an apostrophe, its items are
recovered from it, so different lists are shown differently; and no list shows a
line feed, a carriage return or a tab.  The two rules whose messages list quoted
items list none with an apostrophe.  All this rests on the way items are
escaped, which is that of four replacements with the backslash first.
-/
theorem quotedList_can_be_read_back :
    (∀ items : List Text, (∀ item ∈ items, CodeUnit.singleQuote ∉ item) →
      Text.quotedItems (Text.quotedList items) = items) ∧
    Set.InjOn Text.quotedList {items | ∀ item ∈ items, CodeUnit.singleQuote ∉ item} ∧
    (∀ items : List Text, CodeUnit.lineFeed ∉ Text.quotedList items ∧
      CodeUnit.carriageReturn ∉ Text.quotedList items ∧
      CodeUnit.tab ∉ Text.quotedList items) ∧
    (∀ source : Text,
      (∀ occurrence ∈ MultiCharLiteral.literal.occurrences source,
        CodeUnit.singleQuote ∉ occurrence.capture) ∧
      ∀ occurrence ∈ RedundantConversion.call.occurrences source,
        CodeUnit.singleQuote ∉ occurrence.matched) ∧
    ∀ item : Text, Text.escape item =
      Text.replaceUnit CodeUnit.tab "\\t" (Text.replaceUnit CodeUnit.carriageReturn "\\r"
        (Text.replaceUnit CodeUnit.lineFeed "\\n"
          (Text.replaceUnit CodeUnit.backslash "\\\\" item))) := by
  refine ⟨fun items plain => Text.quotedItems_quotedList plain, ?_, ?_, ?_,
    Text.escape_eq_replacements⟩
  · intro first firstPlain second secondPlain same
    rw [← Text.quotedItems_quotedList firstPlain, same, Text.quotedItems_quotedList secondPlain]
  · intro items
    exact ⟨Text.not_mem_quotedList_of_not_isVisible (by decide) items,
      Text.not_mem_quotedList_of_not_isVisible (by decide) items,
      Text.not_mem_quotedList_of_not_isVisible (by decide) items⟩
  · intro source
    exact ⟨fun _ listed => MultiCharLiteral.singleQuote_not_mem_capture listed,
      fun _ listed => RedundantConversion.singleQuote_not_mem_matched listed⟩

/-- A backslash in front of an `n`, a line feed, the separator and an empty item. -/
theorem quotedList_of_awkward_items :
    let items : List Text := ["a\\nb", "a\nb", "x, y", "", "[]"]
    Text.quotedList items = "['a\\\\nb', 'a\\nb', 'x, y', '', '[]']" ∧
      Text.quotedItems (Text.quotedList items) = items := by
  intro items
  have plain : ∀ item ∈ items, CodeUnit.singleQuote ∉ item := by decide
  exact ⟨by decide, quotedList_can_be_read_back.1 items plain⟩

end JuliaLint

import Mathlib.Data.List.Basic
import Mathlib.Data.List.Induction
import JuliaLint.Proofs.Defaulting

namespace JuliaLint
namespace Value

/-!
# The fields of a record in order

A record may write a name more than once, in any order, and still has each of its
fields once and in a fixed order.  The last value that is written for a name is
its value.  Names that are list indices come first and ascend as numbers; the
other names follow, each at the place where it was written first.
-/

/-- Whether a name of the record is visited before another one. -/
def Precedes (fields : List (String × Value)) (first second : String) : Prop :=
  match index? first, index? second with
  | some firstIndex, some secondIndex => firstIndex < secondIndex
  | some _, none => True
  | none, some _ => False
  | none, none =>
      (fields.map Prod.fst).idxOf first < (fields.map Prod.fst).idxOf second

/-- The list visits the fields of the record, each once and with its last value, in order. -/
structure Visits (fields visited : List (String × Value)) : Prop where
  last : ∀ name value, (name, value) ∈ visited ↔ fields.reverse.lookup name = some value
  ascend : visited.Pairwise fun first second => Precedes fields first.1 second.1

/-! ## The names of a settled record -/

theorem settle_concat (fields : List (String × Value)) (field : String × Value) :
    settle (fields ++ [field]) = Table.put field.1 field.2 (settle fields) :=
  Table.overlay_concat ..

theorem mem_names_settle {fields : List (String × Value)} {name : String} :
    name ∈ (settle fields).map Prod.fst ↔ name ∈ fields.map Prod.fst := by
  induction fields using List.reverseRecOn with
  | nil => rfl
  | append_singleton fields field ih =>
      rw [settle_concat, Table.names_put, List.map_append, List.mem_append, ← ih]
      split
      · next known =>
        refine ⟨Or.inl, fun either => either.elim id fun isLast => ?_⟩
        rw [List.mem_singleton.mp isLast]
        exact known
      · rw [List.mem_append]
        rfl

/-- Settling keeps the names in the order in which they were written first. -/
theorem settle_ascends (fields : List (String × Value)) :
    ((settle fields).map Prod.fst).Pairwise fun first second =>
      (fields.map Prod.fst).idxOf first < (fields.map Prod.fst).idxOf second := by
  induction fields using List.reverseRecOn with
  | nil => exact List.Pairwise.nil
  | append_singleton fields field ih =>
      have place : ∀ name ∈ (settle fields).map Prod.fst,
          ((fields ++ [field]).map Prod.fst).idxOf name = (fields.map Prod.fst).idxOf name := by
        intro name member
        rw [List.map_append]
        exact List.idxOf_append_of_mem (mem_names_settle.mp member)
      have kept : ((settle fields).map Prod.fst).Pairwise fun first second =>
          ((fields ++ [field]).map Prod.fst).idxOf first <
            ((fields ++ [field]).map Prod.fst).idxOf second := by
        refine List.Pairwise.imp_of_mem ?_ ih
        intro first second firstMember secondMember before
        rw [place first firstMember, place second secondMember]
        exact before
      rw [settle_concat, Table.names_put]
      split
      · exact kept
      · next fresh =>
        refine List.pairwise_append.mpr ⟨kept, List.pairwise_singleton .., ?_⟩
        intro first firstMember second isLast
        rw [List.mem_singleton.mp isLast, place first firstMember, List.map_append,
          List.idxOf_append_of_notMem fun written => fresh (mem_names_settle.mpr written)]
        exact Nat.lt_of_lt_of_le (List.idxOf_lt_length_of_mem (mem_names_settle.mp firstMember))
          (Nat.le_add_right ..)

/-! ## Indices -/

/-- An index has one spelling. -/
theorem eq_of_index?_eq {first second : String} {index : Nat}
    (isFirst : index? first = some index) (isSecond : index? second = some index) :
    first = second := by
  have spelled : ∀ name, index? name = some index → name.toList = Nat.toDigits 10 index := by
    intro name isIndex
    rcases Option.filter_eq_some_iff.mp isIndex with ⟨digits, _⟩
    unfold decimalDigits? at digits
    simp only at digits
    split at digits
    · next accepted =>
      rcases Bool.and_eq_true_iff.mp accepted with ⟨_, canonical⟩
      rw [← Option.some.inj digits]
      exact (beq_iff_eq.mp canonical).symm
    · cases digits
  exact String.toList_injective ((spelled first isFirst).trans (spelled second isSecond).symm)

theorem index?_of_mem_indexed {fields : List (String × Value)} {entry : Nat × String × Value}
    (member : entry ∈ fields.filterMap fun field =>
      (index? field.1).map fun index => (index, field)) :
    index? entry.2.1 = some entry.1 := by
  rcases List.mem_filterMap.mp member with ⟨field, _, isEntry⟩
  rcases Option.map_eq_some_iff.mp isEntry with ⟨index, isIndex, rfl⟩
  exact isIndex

/-! ## The order -/

theorem inOrder_ascends (fields : List (String × Value)) :
    (inOrder fields).Pairwise fun first second => Precedes fields first.1 second.1 := by
  have distinct := List.pairwise_map.mp
    (List.nodup_iff_pairwise_ne.mp (nodup_names_inOrder fields))
  unfold inOrder at distinct ⊢
  rw [List.pairwise_append, List.pairwise_map] at distinct ⊢
  have isIndexed : ∀ entry ∈ rankByKey (fun entry : Nat × String × Value => -(entry.1 : Int))
      ((settle fields).filterMap fun field => (index? field.1).map fun index => (index, field)),
      index? entry.2.1 = some entry.1 :=
    fun entry member => index?_of_mem_indexed ((rankByKey_perm _ _).mem_iff.mp member)
  refine ⟨?_, ?_, ?_⟩
  · have ranked := rankByKey_descending (fun entry : Nat × String × Value => -(entry.1 : Int))
      ((settle fields).filterMap fun field => (index? field.1).map fun index => (index, field))
    refine List.Pairwise.imp_of_mem ?_ (ranked.and distinct.1)
    rintro first second firstMember secondMember ⟨ordered, different⟩
    have firstIndex := isIndexed first firstMember
    have secondIndex := isIndexed second secondMember
    have unequal : first.1 ≠ second.1 := by
      intro same
      exact different (eq_of_index?_eq firstIndex (same ▸ secondIndex))
    rw [Precedes, firstIndex, secondIndex]
    show first.1 < second.1
    omega
  · have written := List.pairwise_map.mp (settle_ascends fields)
    refine List.Pairwise.imp_of_mem ?_ (written.sublist List.filter_sublist)
    intro first second firstMember secondMember before
    have firstOther := Option.isNone_iff_eq_none.mp (List.mem_filter.mp firstMember).2
    have secondOther := Option.isNone_iff_eq_none.mp (List.mem_filter.mp secondMember).2
    rw [Precedes, firstOther, secondOther]
    exact before
  · intro first firstMember second secondMember
    rcases List.mem_map.mp firstMember with ⟨entry, entryMember, rfl⟩
    have secondOther := Option.isNone_iff_eq_none.mp (List.mem_filter.mp secondMember).2
    rw [Precedes, isIndexed entry entryMember, secondOther]
    trivial

theorem mem_inOrder_iff {fields : List (String × Value)} {name : String} {value : Value} :
    (name, value) ∈ inOrder fields ↔ fields.reverse.lookup name = some value := by
  rw [(inOrder_perm_settle fields).mem_iff, ← field?_eq_lookup_reverse, field?,
    Table.lookup_eq_some_iff_mem (nodup_names_settle fields)]

/-- The order of a record's fields visits each of them once, with its last value. -/
theorem visits_inOrder (fields : List (String × Value)) : Visits fields (inOrder fields) where
  last _ _ := mem_inOrder_iff
  ascend := inOrder_ascends fields

/-- Indices come first, as numbers, and a name that is written again keeps its place. -/
example : (inOrder [("b", .null), ("10", .null), ("a", .null), ("9", .null),
    ("b", .boolean true)]).map Prod.fst = ["9", "10", "b", "a"] := by
  decide

end Value
end JuliaLint

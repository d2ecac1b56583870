namespace JuliaLint

/-!
Tables: entries under names, in the order in which the names came in.  An entry
that is put under a name of the table takes the place of the old one, and a new
name goes to the end.  A table over another one is had by putting its entries
there, one after the other, so the last entry for a name counts.
-/

/-- Entries by name, in their order. -/
abbrev Table (α : Type) := List (String × α)

namespace Table

variable {α : Type}

def put (name : String) (entry : α) : Table α → Table α
  | [] => [(name, entry)]
  | (other, old) :: table =>
      if other = name then
        (name, entry) :: table
      else
        (other, old) :: put name entry table

def overlay (table entries : Table α) : Table α :=
  entries.foldl (fun table entry => table.put entry.1 entry.2) table

theorem overlay_cons (table : Table α) (entry : String × α) (entries : Table α) :
    table.overlay (entry :: entries) = (table.put entry.1 entry.2).overlay entries :=
  rfl

theorem overlay_concat (table entries : Table α) (entry : String × α) :
    table.overlay (entries ++ [entry]) = (table.overlay entries).put entry.1 entry.2 := by
  rw [overlay, List.foldl_append]
  rfl

/-! ## Names -/

theorem names_put (name : String) (entry : α) (table : Table α) :
    (table.put name entry).map Prod.fst =
      if name ∈ table.map Prod.fst then
        table.map Prod.fst
      else
        table.map Prod.fst ++ [name] := by
  induction table with
  | nil => rfl
  | cons first table ih =>
      rcases first with ⟨other, old⟩
      rw [put]
      by_cases same : other = name
      · simp [same]
      · rw [if_neg same, List.map_cons, ih]
        have different : ¬name = other := fun equal => same equal.symm
        by_cases later : name ∈ table.map Prod.fst
        · simp [later]
        · simp [later, different]

theorem nodup_names_put {table : Table α} (distinct : (table.map Prod.fst).Nodup)
    (name : String) (entry : α) : ((table.put name entry).map Prod.fst).Nodup := by
  rw [names_put]
  split
  · exact distinct
  · next fresh =>
    apply List.nodup_append.mpr
    refine ⟨distinct, List.nodup_cons.mpr ⟨List.not_mem_nil, List.nodup_nil⟩, ?_⟩
    intro earlier member last isLast
    rw [List.mem_singleton.mp isLast]
    rintro rfl
    exact fresh member

theorem nodup_names_overlay {table : Table α} (distinct : (table.map Prod.fst).Nodup)
    (entries : Table α) : ((table.overlay entries).map Prod.fst).Nodup := by
  induction entries generalizing table with
  | nil => exact distinct
  | cons entry entries ih => exact ih (nodup_names_put distinct entry.1 entry.2)

/-- Nothing is appended for names that the table has already. -/
theorem names_overlay_of_known {table entries : Table α}
    (known : ∀ name ∈ entries.map Prod.fst, name ∈ table.map Prod.fst) :
    (table.overlay entries).map Prod.fst = table.map Prod.fst := by
  induction entries generalizing table with
  | nil => rfl
  | cons entry entries ih =>
      have sameNames : (table.put entry.1 entry.2).map Prod.fst = table.map Prod.fst := by
        rw [names_put, if_pos (known entry.1 List.mem_cons_self)]
      rw [overlay_cons, ih, sameNames]
      intro name member
      rw [sameNames]
      exact known name (List.mem_cons_of_mem _ member)

/-! ## Look-ups -/

theorem lookup_cons_eq_ite (name written : String) (entry : α) (table : Table α) :
    ((written, entry) :: table).lookup name =
      if name = written then some entry else table.lookup name := by
  rw [List.lookup_cons]
  by_cases same : name = written
  · simp [same]
  · rw [if_neg same, beq_false_of_ne same]

theorem lookup_put (name other : String) (entry : α) (table : Table α) :
    (table.put name entry).lookup other =
      if other = name then some entry else table.lookup other := by
  induction table with
  | nil => exact lookup_cons_eq_ite ..
  | cons first table ih =>
      rcases first with ⟨written, old⟩
      rw [put, lookup_cons_eq_ite]
      by_cases here : written = name
      · subst here
        rw [if_pos rfl, lookup_cons_eq_ite]
        split <;> rfl
      · rw [if_neg here, lookup_cons_eq_ite, ih]
        by_cases same : other = written
        · rw [if_pos same, if_neg (same ▸ here), if_pos same]
        · rw [if_neg same, if_neg same]

/-- The last entry that was put under a name counts, and else the entry that was there. -/
theorem lookup_overlay (table entries : Table α) (name : String) :
    (table.overlay entries).lookup name =
      (entries.reverse.lookup name).or (table.lookup name) := by
  induction entries generalizing table with
  | nil => rfl
  | cons entry entries ih =>
      rw [overlay_cons, ih, lookup_put, List.reverse_cons, List.lookup_append, Option.or_assoc,
        lookup_cons_eq_ite]
      split <;> rfl

theorem lookup_eq_some_iff_mem {table : Table α} (distinct : (table.map Prod.fst).Nodup)
    {name : String} {entry : α} :
    table.lookup name = some entry ↔ (name, entry) ∈ table := by
  induction table with
  | nil => simp
  | cons first others ih =>
      rcases first with ⟨firstName, firstEntry⟩
      rcases List.nodup_cons.mp distinct with ⟨absent, othersDistinct⟩
      by_cases same : name = firstName
      · subst same
        have notLater : (name, entry) ∉ others := by
          intro later
          exact absent (List.mem_map.mpr ⟨(name, entry), later, rfl⟩)
        simp [notLater, eq_comm]
      · have differs : (name == firstName) = false := beq_false_of_ne same
        simp [List.lookup_cons, differs, same, ih othersDistinct]

/-- The order of distinct names does not matter to a look-up. -/
theorem lookup_eq_of_perm {first second : Table α}
    (distinct : (first.map Prod.fst).Nodup) (reordered : first.Perm second) (name : String) :
    first.lookup name = second.lookup name := by
  have stillDistinct : (second.map Prod.fst).Nodup :=
    (reordered.map Prod.fst).nodup_iff.mp distinct
  apply Option.ext
  intro entry
  rw [lookup_eq_some_iff_mem distinct, lookup_eq_some_iff_mem stillDistinct,
    reordered.mem_iff]

theorem lookup_reverse {table : Table α} (distinct : (table.map Prod.fst).Nodup)
    (name : String) : table.reverse.lookup name = table.lookup name :=
  (lookup_eq_of_perm distinct (List.reverse_perm table).symm name).symm

theorem some_getD_lookup {table : Table α} {name : String}
    (member : name ∈ table.map Prod.fst) (other : α) :
    some ((table.lookup name).getD other) = table.lookup name := by
  rcases List.mem_map.mp member with ⟨entry, written, isName⟩
  cases found : table.lookup name with
  | none =>
      have different := List.lookup_eq_none_iff.mp found entry written
      rw [isName, bne_self_eq_false] at different
      cases different
  | some _ => rfl

/-- Distinct names in order and the entries under them make up a table. -/
theorem eq_of_lookup_eq {first second : Table α} (distinct : (first.map Prod.fst).Nodup)
    (sameNames : first.map Prod.fst = second.map Prod.fst)
    (sameEntries : ∀ name ∈ first.map Prod.fst, first.lookup name = second.lookup name) :
    first = second := by
  induction first generalizing second with
  | nil => exact (List.map_eq_nil_iff.mp sameNames.symm).symm
  | cons entry first ih =>
      cases second with
      | nil => cases sameNames
      | cons other second =>
          rcases entry with ⟨name, value⟩
          rcases other with ⟨otherName, otherValue⟩
          rcases List.cons_eq_cons.mp sameNames with ⟨rfl, sameOthers⟩
          rcases List.nodup_cons.mp distinct with ⟨absent, othersDistinct⟩
          have sameValue := sameEntries name List.mem_cons_self
          rw [List.lookup_cons_self, List.lookup_cons_self] at sameValue
          rw [Option.some.inj sameValue, ih othersDistinct sameOthers]
          intro later member
          have different : later ≠ name := fun same => absent (same ▸ member)
          have sameLater := sameEntries later (List.mem_cons_of_mem _ member)
          rw [lookup_cons_eq_ite, lookup_cons_eq_ite, if_neg different, if_neg different]
            at sameLater
          exact sameLater

end Table
end JuliaLint

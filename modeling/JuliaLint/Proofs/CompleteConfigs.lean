import JuliaLint.Proofs.ConfigFaults

namespace JuliaLint

/-!
# Configurations that were read are complete

A configuration that is read from data has one entry for every rule in each of
its tables, in the order of the rules, whatever the order of the settings in the
data: the settings are put into the table of the defaults, and since none of them
names an unknown code, nothing is appended to it.  An entry is the setting that
the data has for the rule, or else the default.  Such a configuration can be
written as data again, and reading it back gives the same configuration: all of
its codes are known, all of its words are settings, and no default is left to be
filled in.
-/

namespace Config

/-! ## The settings of a table -/

section Settings

variable {α : Type}

/-- The setting that the data has for a code in one of its fields. -/
def ownSetting? (field : ConfigField) (ofName? : String → Option α) (code : String) :
    Value → Option α
  | .record fields =>
      match fields.reverse.lookup field.name with
      | some (.record settings) => (settings.reverse.lookup code).bind (setting? ofName?)
      | _ => none
  | _ => none

def tableValue (name : α → String) (table : Table α) : Value :=
  .record (table.map fun entry => (entry.1, .text (name entry.2)))

theorem lookup_filterMap_namedSetting? {settings : List (String × Value)}
    (distinct : (settings.map Prod.fst).Nodup) (ofName? : String → Option α) (code : String) :
    (settings.filterMap (namedSetting? ofName?)).lookup code =
      (settings.lookup code).bind (setting? ofName?) := by
  ext setting
  rw [Table.lookup_eq_some_iff_mem (nodup_names_filterMap ofName? distinct), List.mem_filterMap,
    Option.bind_eq_some_iff]
  constructor
  · rintro ⟨⟨_, value⟩, member, isEntry⟩
    rcases Option.map_eq_some_iff.mp isEntry with ⟨_, denoted, same⟩
    cases same
    exact ⟨value, (Table.lookup_eq_some_iff_mem distinct).mpr member, denoted⟩
  · rintro ⟨value, isValue, denoted⟩
    refine ⟨(code, value), (Table.lookup_eq_some_iff_mem distinct).mp isValue, ?_⟩
    rw [namedSetting?, denoted, Option.map_some]

theorem lookup_ownTable (field : ConfigField) (ofName? : String → Option α) (code : String)
    (fields : List (String × Value)) :
    (ownTable field ofName? fields).lookup code =
      ownSetting? field ofName? code (.record fields) := by
  rw [ownTable, ownSetting?]
  cases fields.reverse.lookup field.name with
  | none => rfl
  | some table =>
      cases table with
      | record settings =>
          simp only [← Value.field?_eq_lookup_reverse settings code]
          exact lookup_filterMap_namedSetting? (Value.nodup_names_settle settings) ofName? code
      | _ => rfl

/-- A table that was written as data has its own entries as settings. -/
theorem bind_setting?_tableValue {name : α → String} {ofName? : String → Option α}
    (readsBack : ∀ setting, ofName? (name setting) = some setting) {table : Table α}
    (distinct : (table.map Prod.fst).Nodup) (code : String) :
    ((table.map fun entry => (entry.1, Value.text (name entry.2))).reverse.lookup code).bind
      (setting? ofName?) = table.lookup code := by
  have sameCodes : (table.map fun entry => (entry.1, Value.text (name entry.2))).map Prod.fst =
      table.map Prod.fst := by
    rw [List.map_map]
    rfl
  rw [Table.lookup_reverse (sameCodes ▸ distinct)]
  clear distinct sameCodes
  induction table with
  | nil => rfl
  | cons entry table ih =>
      rw [List.map_cons, List.lookup_cons, List.lookup_cons]
      cases code == entry.1 with
      | true => exact readsBack entry.2
      | false => exact ih

/-- A table that was written as data holds settings for known codes only. -/
theorem isAcceptableTable_tableValue {field : ConfigField} {name : α → String}
    (named : ∀ setting, name setting ∈ field.words) {table : Table α}
    (known : ∀ entry ∈ table, ∃ rule : Rule, rule.code = entry.1) :
    IsAcceptableTable field (tableValue name table) := by
  refine ⟨_, rfl, fun code value isField => ?_⟩
  rcases List.lookup_eq_some_iff.mp isField with ⟨later, earlier, cut, _⟩
  have written : (code, value) ∈
      (table.map fun entry => (entry.1, Value.text (name entry.2))).reverse := by
    rw [cut]
    exact List.mem_append_right _ List.mem_cons_self
  rcases List.mem_map.mp (List.mem_reverse.mp written) with ⟨entry, member, same⟩
  cases same
  exact ⟨⟨name entry.2, named entry.2, rfl⟩, Or.inr (known entry member)⟩

end Settings

theorem lookup_states_ownSettings (data : Value) (code : String) :
    (ownSettings data).states.lookup code = ownSetting? .rules State.ofName? code data := by
  cases data with
  | record fields => exact lookup_ownTable .rules State.ofName? code fields
  | _ => rfl

theorem lookup_severities_ownSettings (data : Value) (code : String) :
    (ownSettings data).severities.lookup code =
      ownSetting? .severity Severity.ofName? code data := by
  cases data with
  | record fields => exact lookup_ownTable .severity Severity.ofName? code fields
  | _ => rfl

/-! ## Complete tables -/

theorem codes_states_standard : standard.states.map Prod.fst = Rule.all.map Rule.code := by
  rw [standard, List.map_map]
  rfl

theorem codes_severities_standard :
    standard.severities.map Prod.fst = Rule.all.map Rule.code := by
  rw [standard, List.map_map]
  rfl

/-- Codes among which none is unknown are codes of rules. -/
theorem mem_codes_of_unknownCode? {codes : List String} (known : unknownCode? codes = none)
    {code : String} (member : code ∈ codes) : code ∈ Rule.all.map Rule.code := by
  have named := List.find?_eq_none.mp known code member
  rw [Bool.not_eq_true, Option.isNone_eq_false_iff, Option.isSome_iff_exists] at named
  rcases named with ⟨rule, found⟩
  exact List.mem_map.mpr ⟨rule, rule.mem_all, Rule.code_of_ofCode? found⟩

/-- A configuration with one entry for every rule, and for nothing else, in order. -/
structure IsComplete (config : Config) : Prop where
  states : config.states.map Prod.fst = Rule.all.map Rule.code
  severities : config.severities.map Prod.fst = Rule.all.map Rule.code

theorem isComplete_of_ofValue {data : Value} {config : Config}
    (accepted : ofValue data = .ok config) : config.IsComplete := by
  rcases exists_overrides_of_ofValue accepted with ⟨own, _, known, rfl⟩
  constructor
  · rw [complete, Table.names_overlay_of_known, codes_states_standard]
    intro code member
    rw [codes_states_standard]
    exact mem_codes_of_unknownCode? known (List.mem_append_left _ member)
  · rw [complete, Table.names_overlay_of_known, codes_severities_standard]
    intro code member
    rw [codes_severities_standard]
    exact mem_codes_of_unknownCode? known (List.mem_append_right _ member)

theorem IsComplete.distinct {config : Config} (isComplete : config.IsComplete) :
    config.Distinct := by
  have distinctCodes : (Rule.all.map Rule.code).Nodup := by decide
  constructor
  · rw [isComplete.states]
    exact distinctCodes
  · rw [isComplete.severities]
    exact distinctCodes

theorem lookup_states_ofValue {data : Value} {config : Config}
    (accepted : ofValue data = .ok config) (rule : Rule) :
    config.states.lookup rule.code =
      some ((ownSetting? .rules State.ofName? rule.code data).getD .on) := by
  rcases exists_overrides_of_ofValue accepted with ⟨own, isOwn, _, rfl⟩
  rw [lookup_states_complete (distinct_of_overrides isOwn), lookup_states_overrides isOwn,
    lookup_states_ownSettings]

theorem lookup_severities_ofValue {data : Value} {config : Config}
    (accepted : ofValue data = .ok config) (rule : Rule) :
    config.severities.lookup rule.code =
      some ((ownSetting? .severity Severity.ofName? rule.code data).getD
        rule.defaultSeverity) := by
  rcases exists_overrides_of_ofValue accepted with ⟨own, isOwn, _, rfl⟩
  rw [lookup_severities_complete (distinct_of_overrides isOwn),
    lookup_severities_overrides isOwn, lookup_severities_ownSettings]

/-! ## A configuration as data -/

def toValue (config : Config) : Value :=
  .record [(ConfigField.rules.name, tableValue State.name config.states),
    (ConfigField.severity.name, tableValue Severity.name config.severities)]

theorem ownSetting?_rules_toValue {config : Config}
    (distinct : (config.states.map Prod.fst).Nodup) (code : String) :
    ownSetting? .rules State.ofName? code config.toValue = config.states.lookup code :=
  bind_setting?_tableValue (fun state => by cases state <;> rfl) distinct code

theorem ownSetting?_severity_toValue {config : Config}
    (distinct : (config.severities.map Prod.fst).Nodup) (code : String) :
    ownSetting? .severity Severity.ofName? code config.toValue = config.severities.lookup code :=
  bind_setting?_tableValue (fun severity => by cases severity <;> rfl) distinct code

/-- What is written from a complete configuration holds a setting for each rule and no more. -/
theorem isAcceptable_toValue {config : Config} (isComplete : config.IsComplete) :
    IsAcceptable config.toValue := by
  have known : ∀ code ∈ Rule.all.map Rule.code, ∃ rule : Rule, rule.code = code := by
    intro code member
    rcases List.mem_map.mp member with ⟨rule, _, same⟩
    exact ⟨rule, same⟩
  refine ⟨_, rfl, fun field table present => ?_⟩
  cases field with
  | rules =>
      obtain rfl : tableValue State.name config.states = table := Option.some.inj present
      refine isAcceptableTable_tableValue (fun state => ?_) (fun entry member => ?_)
      · cases state <;> decide
      · exact known _ (isComplete.states ▸ List.mem_map_of_mem member)
  | severity =>
      obtain rfl : tableValue Severity.name config.severities = table :=
        Option.some.inj present
      refine isAcceptableTable_tableValue (fun severity => ?_) (fun entry member => ?_)
      · cases severity <;> decide
      · exact known _ (isComplete.severities ▸ List.mem_map_of_mem member)

/-- A table with an entry for every rule is not changed by defaults. -/
theorem eq_of_lookup_eq_getD {α : Type} {again table : Table α}
    (againNames : again.map Prod.fst = Rule.all.map Rule.code)
    (names : table.map Prod.fst = Rule.all.map Rule.code) (other : Rule → α)
    (filled : ∀ rule : Rule,
      again.lookup rule.code = some ((table.lookup rule.code).getD (other rule))) :
    again = table := by
  have distinct : (again.map Prod.fst).Nodup := by
    rw [againNames]
    decide
  apply Table.eq_of_lookup_eq distinct (againNames.trans names.symm)
  intro code member
  rw [againNames] at member
  rcases List.mem_map.mp member with ⟨rule, _, rfl⟩
  rw [filled, Table.some_getD_lookup]
  rw [names]
  exact member

/-- Reading a complete configuration back changes nothing. -/
theorem ofValue_toValue {config : Config} (isComplete : config.IsComplete) :
    ofValue config.toValue = .ok config := by
  rcases exists_ofValue_eq_ok_iff.mpr (isAcceptable_toValue isComplete) with ⟨again, accepted⟩
  have againComplete := isComplete_of_ofValue accepted
  have sameStates : again.states = config.states := by
    apply eq_of_lookup_eq_getD againComplete.states isComplete.states fun _ => .on
    intro rule
    rw [lookup_states_ofValue accepted, ownSetting?_rules_toValue isComplete.distinct.states]
  have sameSeverities : again.severities = config.severities := by
    apply eq_of_lookup_eq_getD againComplete.severities isComplete.severities
      Rule.defaultSeverity
    intro rule
    rw [lookup_severities_ofValue accepted,
      ownSetting?_severity_toValue isComplete.distinct.severities]
  rw [accepted]
  cases again
  cases sameStates
  cases sameSeverities
  rfl

/--
A configuration that is read from data has an entry for each rule and for nothing
else in both of its tables, in the order of the rules.  The entry is the setting
that the data has for the rule, or the default if it has none.  Reading the
configuration itself gives it back unchanged.
-/
theorem ofValue_is_complete_and_stable (data : Value) (config : Config)
    (accepted : ofValue data = .ok config) :
    config.states.map Prod.fst = Rule.all.map Rule.code ∧
    config.severities.map Prod.fst = Rule.all.map Rule.code ∧
    (∀ rule : Rule, config.states.lookup rule.code =
      some ((ownSetting? .rules State.ofName? rule.code data).getD .on)) ∧
    (∀ rule : Rule, config.severities.lookup rule.code =
      some ((ownSetting? .severity Severity.ofName? rule.code data).getD
        rule.defaultSeverity)) ∧
    ofValue config.toValue = .ok config := by
  have isComplete := isComplete_of_ofValue accepted
  exact ⟨isComplete.states, isComplete.severities, lookup_states_ofValue accepted,
    lookup_severities_ofValue accepted, ofValue_toValue isComplete⟩

/-- Settings in another order than that of the rules, one of which is written
twice, and a reserved name. -/
theorem ofValue_of_unordered_settings :
    let data : Value := .record
      [("severity", .record [("VAGUE_FILTER", .text "error")]),
        ("rules", .record [("NEGATED_MEMBERSHIP", .text "on"), ("__proto__", .text "off"),
          ("BLOCK_BALANCE", .text "warn"), ("NEGATED_MEMBERSHIP", .text "off")])]
    ∃ config, ofValue data = .ok config ∧
      config.states.map Prod.fst = Rule.all.map Rule.code ∧
      config.states.lookup "NEGATED_MEMBERSHIP" = some .off ∧
      config.severities.lookup "VAGUE_FILTER" = some .error ∧
      ofValue config.toValue = .ok config := by
  intro data
  let own : Config :=
    { states := [("NEGATED_MEMBERSHIP", .off), ("BLOCK_BALANCE", .warn)]
      severities := [("VAGUE_FILTER", .error)] }
  have accepted : ofValue data = .ok own.complete := rfl
  rcases ofValue_is_complete_and_stable data _ accepted with
    ⟨stateCodes, _, states, severities, stable⟩
  exact ⟨_, accepted, stateCodes, states .negatedMembership, severities .vagueFilter, stable⟩

end Config
end JuliaLint

import JuliaLint.Config.Reading
import JuliaLint.Report

namespace JuliaLint

/-!
# Defaults filled in early or late

Defaults are filled in at two places.  Reading a configuration from data merges
its settings into a complete table, and an inspection falls back to the same
defaults where a table has no entry.  An inspection therefore cannot tell the
configuration that was read from one that holds the data's own settings and
nothing else.

Reading goes through the settings in the order of a record's fields and drops
the reserved name, so the two tables differ as lists.  They agree on every look
up of a rule: the names of a record are distinct once it is settled, and no rule
has the reserved name.
-/

/-! ## The names of a record in order -/

namespace Value

/-- The order of a record's fields lists the settled fields. -/
theorem inOrder_perm_settle (fields : List (String × Value)) :
    (inOrder fields).Perm (settle fields) := by
  have indices : ((settle fields).filterMap fun field =>
      (index? field.1).map fun index => (index, field)).map Prod.snd =
      (settle fields).filter fun field => (index? field.1).isSome := by
    induction settle fields with
    | nil => rfl
    | cons field fields ih =>
        rw [List.filterMap_cons, List.filter_cons, ← ih]
        cases index? field.1 <;> rfl
  have ascending := (rankByKey_perm (fun entry : Nat × String × Value => -(entry.1 : Int))
    ((settle fields).filterMap fun field =>
      (index? field.1).map fun index => (index, field))).map Prod.snd
  rw [indices] at ascending
  have cut := List.filter_append_perm (fun field => (index? field.1).isSome) (settle fields)
  simp only [Option.not_isSome] at cut
  exact (ascending.append_right _).trans cut

theorem nodup_names_inOrder (fields : List (String × Value)) :
    ((inOrder fields).map Prod.fst).Nodup :=
  ((inOrder_perm_settle fields).map Prod.fst).nodup_iff.mpr (nodup_names_settle fields)

end Value

/-! ## The settings of the data itself -/

namespace Config

/-- The entry that a field of a record is, if its value is a setting. -/
def namedSetting? {α : Type} (ofName? : String → Option α) (field : String × Value) :
    Option (String × α) :=
  (setting? ofName? field.2).map fun setting => (field.1, setting)

/-- The settings in a field of the data, as its record has them. -/
def ownTable {α : Type} (field : ConfigField) (ofName? : String → Option α)
    (data : List (String × Value)) : Table α :=
  match data.reverse.lookup field.name with
  | some (.record settings) => (Value.settle settings).filterMap (namedSetting? ofName?)
  | _ => []

/--
The configuration that holds the settings of the data and nothing else.  No
default is filled in, and an absent field is an empty table.
-/
def ownSettings : Value → Config
  | .record data =>
      { states := ownTable .rules State.ofName? data
        severities := ownTable .severity Severity.ofName? data }
  | _ => empty

section Tables

variable {α : Type} {field : ConfigField} {ofName? : String → Option α}

theorem readSettings_eq_filter {settings : List (String × Value)} {table : Table α}
    (read : readSettings field ofName? settings = .ok table) :
    table = (settings.filterMap (namedSetting? ofName?)).filter fun entry =>
      decide (entry.1 ≠ reservedName) := by
  induction settings generalizing table with
  | nil =>
      cases read
      rfl
  | cons first settings ih =>
      rcases first with ⟨code, value⟩
      rw [readSettings] at read
      cases denoted : setting? ofName? value with
      | none =>
          rw [denoted] at read
          cases read
      | some setting =>
          rw [denoted] at read
          cases others : readSettings field ofName? settings with
          | error fault =>
              rw [others] at read
              cases read
          | ok rest =>
              rw [others] at read
              have isEntry : namedSetting? ofName? (code, value) = some (code, setting) := by
                rw [namedSetting?, denoted, Option.map_some]
              rw [List.filterMap_cons_some isEntry, List.filter_cons, ← ih others]
              cases read
              by_cases reserved : code = reservedName
              · simp [reserved]
              · simp [reserved]

theorem nodup_names_filterMap (ofName? : String → Option α)
    {settings : List (String × Value)}
    (distinct : (settings.map Prod.fst).Nodup) :
    ((settings.filterMap (namedSetting? ofName?)).map Prod.fst).Nodup := by
  have ownName : ∀ setting entry,
      namedSetting? ofName? setting = some entry → entry.1 = setting.1 := by
    intro setting entry isEntry
    rcases Option.map_eq_some_iff.mp isEntry with ⟨denoted, _, rfl⟩
    rfl
  rw [List.nodup_iff_pairwise_ne, List.pairwise_map] at distinct ⊢
  apply List.pairwise_filterMap.mpr
  refine distinct.imp ?_
  intro earlier later different first firstEntry second secondEntry
  rw [ownName earlier first firstEntry, ownName later second secondEntry]
  exact different

theorem lookup_filter_reserved {rule : Rule} (table : Table α) :
    (table.filter fun entry => decide (entry.1 ≠ reservedName)).lookup rule.code =
      table.lookup rule.code := by
  have unreserved : rule.code ≠ reservedName := by
    cases rule <;> decide
  induction table with
  | nil => rfl
  | cons entry table ih =>
      rcases entry with ⟨code, setting⟩
      by_cases reserved : code = reservedName
      · have differs : (rule.code == code) = false :=
          beq_false_of_ne (reserved ▸ unreserved)
        rw [List.filter_cons_of_neg (by simpa using reserved), List.lookup_cons, differs, ih]
      · rw [List.filter_cons_of_pos (by simpa using reserved), List.lookup_cons,
          List.lookup_cons, ih]

/-- The table that is read from the data and the data's own agree on every rule. -/
theorem lookup_readTable {data : List (String × Value)} {table : Table α}
    (read : readTable field ofName? data = .ok table) (rule : Rule) :
    table.lookup rule.code = (ownTable field ofName? data).lookup rule.code := by
  unfold readTable at read
  rw [Value.field?_eq_lookup_reverse] at read
  unfold ownTable
  split at read
  · next absent =>
    rw [absent]
    cases read
    rfl
  · next settings present =>
    rw [present, readSettings_eq_filter read, lookup_filter_reserved]
    have reordered := (Value.inOrder_perm_settle settings).filterMap (namedSetting? ofName?)
    have distinct := nodup_names_filterMap ofName?
      (Value.nodup_names_settle settings)
    exact (Table.lookup_eq_of_perm distinct reordered.symm rule.code).symm
  · cases read

theorem nodup_names_readTable {data : List (String × Value)} {table : Table α}
    (read : readTable field ofName? data = .ok table) : (table.map Prod.fst).Nodup := by
  unfold readTable at read
  split at read
  · cases read
    exact List.nodup_nil
  · next settings _ =>
    rw [readSettings_eq_filter read]
    have kept : (((Value.inOrder settings).filterMap (namedSetting? ofName?)).filter fun entry =>
        decide (entry.1 ≠ reservedName)).Sublist _ := List.filter_sublist
    exact (kept.map Prod.fst).nodup (nodup_names_filterMap ofName?
      (Value.nodup_names_inOrder settings))
  · cases read

end Tables

/-! ## What is read and what the data holds -/

/-- What is read successfully is read from a record, table by table. -/
theorem exists_readTable_of_overrides {data : Value} {own : Config}
    (isOwn : overrides data = .ok own) :
    ∃ fields, data = .record fields ∧
      readTable .rules State.ofName? fields = .ok own.states ∧
      readTable .severity Severity.ofName? fields = .ok own.severities := by
  cases data with
  | record fields =>
      rw [overrides] at isOwn
      cases states : readTable .rules State.ofName? fields with
      | error fault =>
          rw [states] at isOwn
          cases isOwn
      | ok stateTable =>
          cases severities : readTable .severity Severity.ofName? fields with
          | error fault =>
              rw [states, severities] at isOwn
              cases isOwn
          | ok severityTable =>
              rw [states, severities] at isOwn
              cases isOwn
              exact ⟨fields, rfl, states, severities⟩
  | _ => cases isOwn

/-- A configuration that is read completes settings that hold known codes only. -/
theorem exists_overrides_of_ofValue {data : Value} {config : Config}
    (accepted : ofValue data = .ok config) :
    ∃ own, overrides data = .ok own ∧
      unknownCode? (own.states.map Prod.fst ++ own.severities.map Prod.fst) = none ∧
      config = own.complete := by
  rw [ofValue] at accepted
  cases isOwn : overrides data with
  | error fault =>
      rw [isOwn] at accepted
      cases accepted
  | ok own =>
      rw [isOwn] at accepted
      simp only [bind, Except.bind] at accepted
      split at accepted
      · cases accepted
      · next known => exact ⟨own, rfl, known, (Except.ok.inj accepted).symm⟩

theorem distinct_of_overrides {data : Value} {own : Config}
    (isOwn : overrides data = .ok own) : own.Distinct := by
  rcases exists_readTable_of_overrides isOwn with ⟨fields, _, states, severities⟩
  exact ⟨nodup_names_readTable states, nodup_names_readTable severities⟩

theorem lookup_states_overrides {data : Value} {own : Config}
    (isOwn : overrides data = .ok own) (rule : Rule) :
    own.states.lookup rule.code = (ownSettings data).states.lookup rule.code := by
  rcases exists_readTable_of_overrides isOwn with ⟨fields, rfl, states, _⟩
  exact lookup_readTable states rule

theorem lookup_severities_overrides {data : Value} {own : Config}
    (isOwn : overrides data = .ok own) (rule : Rule) :
    own.severities.lookup rule.code = (ownSettings data).severities.lookup rule.code := by
  rcases exists_readTable_of_overrides isOwn with ⟨fields, rfl, _, severities⟩
  exact lookup_readTable severities rule

/-- The settings as they are read and as the record has them mean the same for every rule. -/
theorem inspect_overrides {data : Value} {own : Config} (isOwn : overrides data = .ok own)
    (source : Text) : inspect source own = inspect source (ownSettings data) := by
  have sameStates : ∀ rule, own.stateOf rule = (ownSettings data).stateOf rule := by
    intro rule
    rw [stateOf, stateOf, lookup_states_overrides isOwn]
  apply inspect_congr source sameStates
  intro rule
  rw [severityOf, severityOf, sameStates, lookup_severities_overrides isOwn]

end Config

/--
A configuration that is read from data and the bare settings of the data lead
to the same findings in every script, and hence to the same report.
-/
theorem inspect_ofValue_eq_inspect_ownSettings (data : Value) (config : Config)
    (accepted : Config.ofValue data = .ok config) (source : Text) :
    inspect source config = inspect source (Config.ownSettings data) ∧
      lint source config = lint source (Config.ownSettings data) := by
  have sameFindings : inspect source config = inspect source (Config.ownSettings data) := by
    rcases Config.exists_overrides_of_ofValue accepted with ⟨own, isOwn, _, rfl⟩
    rw [inspect_complete source (Config.distinct_of_overrides isOwn),
      Config.inspect_overrides isOwn]
  refine ⟨sameFindings, ?_⟩
  unfold lint
  rw [sameFindings]

/-- A rule that is turned to `warn` although it has a severity, a rule with
another severity, one that is off, and a reserved name. -/
theorem inspect_ofValue_of_mixed_settings :
    let data : Value := .record
      [("rules", .record [("QUOTE_BALANCE", .text "warn"), ("__proto__", .text "off"),
          ("BLOCK_BALANCE", .text "off")]),
        ("severity", .record [("QUOTE_BALANCE", .text "info"),
          ("FOREIGN_OPERATOR", .text "warning")])]
    let source : Text := "function f() and '"
    ∃ config, Config.ofValue data = .ok config ∧ config ≠ Config.ownSettings data ∧
      (inspect source config).map Finding.severity = [.warning, .warning] ∧
      inspect source config = inspect source (Config.ownSettings data) := by
  intro data source
  let own : Config :=
    { states := [("QUOTE_BALANCE", .warn), ("BLOCK_BALANCE", .off)]
      severities := [("QUOTE_BALANCE", .info), ("FOREIGN_OPERATOR", .warning)] }
  have accepted : Config.ofValue data = .ok own.complete := rfl
  refine ⟨_, accepted, by decide +kernel, by decide +kernel, ?_⟩
  exact (inspect_ofValue_eq_inspect_ownSettings data _ accepted source).1

end JuliaLint

import JuliaLint.Proofs.FieldOrder

namespace JuliaLint

/-!
# The first fault of configuration data

Reading stops at the first fault.  Here the faults of the data are listed without
stopping: what is wrong with the field `rules`, then with the field `severity`,
and last the codes of either field that name no rule.  Reading succeeds exactly
if this list is empty, which is to say that the data is acceptable, and reports
the head of the list otherwise.
-/

namespace ConfigField

def words : ConfigField → List String
  | rules => ["on", "off", "warn"]
  | severity => ["error", "warning", "info"]

def admits (field : ConfigField) : Value → Bool
  | .text word => decide (word ∈ field.words)
  | _ => false

theorem admits_iff {field : ConfigField} {value : Value} :
    field.admits value = true ↔ ∃ word ∈ field.words, value = .text word := by
  cases value with
  | text word => simp [admits]
  | _ => simp [admits]

end ConfigField

namespace Config

/-! ## Acceptable data and all faults -/

/-- Whether the code may stand in a table: it names a rule, or it is reserved. -/
def isKnown (code : String) : Bool :=
  decide (code = reservedName) || (Rule.ofCode? code).isSome

/--
A table that is a record, in which every value is a setting of the field and
every name is the code of a rule or the reserved name.
-/
def IsAcceptableTable (field : ConfigField) (table : Value) : Prop :=
  ∃ settings, table = .record settings ∧
    ∀ (code : String) (value : Value), settings.reverse.lookup code = some value →
      (∃ word ∈ field.words, value = .text word) ∧
        (code = reservedName ∨ ∃ rule : Rule, rule.code = code)

/-- Data that is a record, whose fields `rules` and `severity` are absent or acceptable. -/
def IsAcceptable (data : Value) : Prop :=
  ∃ fields, data = .record fields ∧
    ∀ (field : ConfigField) (table : Value),
      fields.reverse.lookup field.name = some table → IsAcceptableTable field table

/-- The settings in a field of the data, in the order of its record. -/
def settingsIn (field : ConfigField) (fields : List (String × Value)) : List (String × Value) :=
  match fields.reverse.lookup field.name with
  | some (.record settings) => Value.inOrder settings
  | _ => []

/-- The faults of a field that is present: it is no record, or holds invalid settings. -/
def fieldFaults (field : ConfigField) (fields : List (String × Value)) : List ConfigFault :=
  match fields.reverse.lookup field.name with
  | none => []
  | some (.record settings) =>
      ((Value.inOrder settings).filter fun setting => !field.admits setting.2).map fun setting =>
        .invalidSetting field setting.1 setting.2
  | some _ => [.fieldNotARecord field]

/-- The names in a field that are no codes of rules. -/
def codeFaults (field : ConfigField) (fields : List (String × Value)) : List ConfigFault :=
  (((settingsIn field fields).map Prod.fst).filter fun code => !isKnown code).map .unknownRule

/-- All faults of the data, in the order in which they count. -/
def faults : Value → List ConfigFault
  | .record fields =>
      fieldFaults .rules fields ++ fieldFaults .severity fields ++
        (codeFaults .rules fields ++ codeFaults .severity fields)
  | _ => [.notARecord]

/-! ## Acceptable data has no fault -/

theorem isKnown_iff {code : String} :
    isKnown code = true ↔ code = reservedName ∨ ∃ rule : Rule, rule.code = code := by
  rw [isKnown, Bool.or_eq_true, decide_eq_true_eq, Option.isSome_iff_exists]
  refine or_congr_right ⟨?_, ?_⟩
  · rintro ⟨rule, found⟩
    exact ⟨rule, Rule.code_of_ofCode? found⟩
  · rintro ⟨rule, rfl⟩
    exact ⟨rule, rule.ofCode?_code⟩

section Fields

variable {field : ConfigField} {fields settings : List (String × Value)}

theorem fieldFaults_eq_nil_iff
    (present : fields.reverse.lookup field.name = some (.record settings)) :
    fieldFaults field fields = [] ↔
      ∀ setting ∈ Value.inOrder settings, field.admits setting.2 = true := by
  simp [fieldFaults, present]

theorem codeFaults_eq_nil_iff
    (present : fields.reverse.lookup field.name = some (.record settings)) :
    codeFaults field fields = [] ↔
      ∀ setting ∈ Value.inOrder settings, isKnown setting.1 = true := by
  simp [codeFaults, settingsIn, present]

/-- A field is free of faults if it is absent or acceptable. -/
theorem fieldFaults_and_codeFaults_eq_nil_iff :
    fieldFaults field fields = [] ∧ codeFaults field fields = [] ↔
      ∀ table, fields.reverse.lookup field.name = some table → IsAcceptableTable field table := by
  cases present : fields.reverse.lookup field.name with
  | none => simp [fieldFaults, codeFaults, settingsIn, present]
  | some table =>
      cases table with
      | record settings =>
          rw [fieldFaults_eq_nil_iff present, codeFaults_eq_nil_iff present]
          constructor
          · rintro ⟨valid, known⟩ _ same
            cases same
            refine ⟨settings, rfl, fun code value isField => ?_⟩
            have member := Value.mem_inOrder_iff.mpr isField
            exact ⟨ConfigField.admits_iff.mp (valid _ member), isKnown_iff.mp (known _ member)⟩
          · intro acceptable
            rcases acceptable _ rfl with ⟨_, same, valid⟩
            cases same
            constructor
            · rintro ⟨code, value⟩ member
              exact ConfigField.admits_iff.mpr
                (valid code value (Value.mem_inOrder_iff.mp member)).1
            · rintro ⟨code, value⟩ member
              exact isKnown_iff.mpr (valid code value (Value.mem_inOrder_iff.mp member)).2
      | _ => simp [fieldFaults, present, IsAcceptableTable]

end Fields

theorem faults_eq_nil_iff {data : Value} : faults data = [] ↔ IsAcceptable data := by
  unfold IsAcceptable
  cases data with
  | record fields =>
      constructor
      · intro noFault
        simp only [faults, List.append_eq_nil_iff] at noFault
        rcases noFault with ⟨⟨ruleFaults, severityFaults⟩, ruleCodes, severityCodes⟩
        refine ⟨fields, rfl, fun field => ?_⟩
        apply fieldFaults_and_codeFaults_eq_nil_iff.mp
        cases field with
        | rules => exact ⟨ruleFaults, ruleCodes⟩
        | severity => exact ⟨severityFaults, severityCodes⟩
      · rintro ⟨_, same, acceptable⟩
        cases same
        rcases fieldFaults_and_codeFaults_eq_nil_iff.mpr (acceptable .rules) with
          ⟨ruleFaults, ruleCodes⟩
        rcases fieldFaults_and_codeFaults_eq_nil_iff.mpr (acceptable .severity) with
          ⟨severityFaults, severityCodes⟩
        rw [faults, ruleFaults, severityFaults, ruleCodes, severityCodes]
        rfl
  | _ => simp [faults]

/-! ## Reading one table -/

section Tables

variable {α : Type} {field : ConfigField} {ofName? : String → Option α}

theorem codes_of_readSettings {settings : List (String × Value)} {table : Table α}
    (read : readSettings field ofName? settings = .ok table) :
    table.map Prod.fst =
      (settings.map Prod.fst).filter fun code => decide (code ≠ reservedName) := by
  induction settings generalizing table with
  | nil =>
      cases read
      rfl
  | cons first settings ih =>
      rcases first with ⟨code, value⟩
      rw [readSettings] at read
      split at read
      · cases read
      · cases others : readSettings field ofName? settings with
        | error fault =>
            rw [others] at read
            cases read
        | ok rest =>
            rw [others] at read
            cases read
            by_cases reserved : code = reservedName
            · simp [reserved, ih others]
            · simp [reserved, ih others]

theorem codes_of_readTable {fields : List (String × Value)} {table : Table α}
    (read : readTable field ofName? fields = .ok table) :
    table.map Prod.fst =
      ((settingsIn field fields).map Prod.fst).filter fun code =>
        decide (code ≠ reservedName) := by
  unfold readTable at read
  rw [Value.field?_eq_lookup_reverse] at read
  unfold settingsIn
  split at read
  · next absent =>
    rw [absent]
    cases read
    rfl
  · next settings present =>
    rw [present]
    exact codes_of_readSettings read
  · cases read

variable (denotes : ∀ value, (setting? ofName? value).isSome = field.admits value)

include denotes

/-- Reading settings reports the first that is invalid. -/
theorem readSettings_eq_error_iff {settings : List (String × Value)} {fault : ConfigFault} :
    readSettings field ofName? settings = .error fault ↔
      ((settings.filter fun setting => !field.admits setting.2).map fun setting =>
        ConfigFault.invalidSetting field setting.1 setting.2).head? = some fault := by
  induction settings with
  | nil => simp [readSettings]
  | cons first settings ih =>
      rcases first with ⟨code, value⟩
      have admitted := denotes value
      rw [readSettings]
      cases denoted : setting? ofName? value with
      | none =>
          rw [denoted] at admitted
          rw [List.filter_cons_of_pos (by simp [← admitted])]
          simp
      | some setting =>
          rw [denoted] at admitted
          rw [List.filter_cons_of_neg (by simp [← admitted]), ← ih]
          cases readSettings field ofName? settings with
          | error other => exact Iff.rfl
          | ok table => simp [bind, Except.bind, pure, Except.pure]

theorem readTable_eq_error_iff {fields : List (String × Value)} {fault : ConfigFault} :
    readTable field ofName? fields = .error fault ↔
      (fieldFaults field fields).head? = some fault := by
  unfold readTable fieldFaults
  rw [Value.field?_eq_lookup_reverse]
  cases present : fields.reverse.lookup field.name with
  | none => simp
  | some table =>
      cases table with
      | record settings => exact readSettings_eq_error_iff denotes
      | _ => simp

theorem fieldFaults_of_readTable {fields : List (String × Value)} {table : Table α}
    (read : readTable field ofName? fields = .ok table) : fieldFaults field fields = [] := by
  cases listed : fieldFaults field fields with
  | nil => rfl
  | cons fault others =>
      have reported : readTable field ofName? fields = .error fault := by
        rw [readTable_eq_error_iff denotes, listed]
        rfl
      rw [read] at reported
      cases reported

end Tables

theorem isSome_find?_name {α : Type} (all : List α) (name : α → String) (word : String) :
    (all.find? fun each => name each == word).isSome = decide (word ∈ all.map name) := by
  rw [Bool.eq_iff_iff, List.find?_isSome, decide_eq_true_eq, List.mem_map]
  simp only [beq_iff_eq]

theorem isSome_setting?_state (value : Value) :
    (setting? State.ofName? value).isSome = ConfigField.rules.admits value := by
  cases value with
  | text word => exact isSome_find?_name State.all State.name word
  | _ => rfl

theorem isSome_setting?_severity (value : Value) :
    (setting? Severity.ofName? value).isSome = ConfigField.severity.admits value := by
  cases value with
  | text word => exact isSome_find?_name Severity.all Severity.name word
  | _ => rfl

/-! ## The first fault -/

/-- Dropping the reserved name and then the codes of rules leaves the unknown codes. -/
theorem filter_unknown (codes : List String) :
    (codes.filter fun code => decide (code ≠ reservedName)).filter
        (fun code => (Rule.ofCode? code).isNone) = codes.filter fun code => !isKnown code := by
  rw [List.filter_filter]
  congr 1
  funext code
  simp [isKnown, Bool.and_comm]

/-- The codes that are looked up are those of both tables, in order. -/
theorem map_unknownCode? {fields : List (String × Value)} {states : Table State}
    {severities : Table Severity}
    (statesRead : readTable .rules State.ofName? fields = .ok states)
    (severitiesRead : readTable .severity Severity.ofName? fields = .ok severities) :
    (unknownCode? (states.map Prod.fst ++ severities.map Prod.fst)).map ConfigFault.unknownRule =
      (codeFaults .rules fields ++ codeFaults .severity fields).head? := by
  unfold unknownCode? codeFaults
  rw [← List.map_append, ← List.filter_append, List.head?_map, List.head?_filter,
    codes_of_readTable statesRead, codes_of_readTable severitiesRead, ← List.filter_append,
    ← List.head?_filter, filter_unknown, List.head?_filter]

theorem ofValue_eq_error_iff {data : Value} {fault : ConfigFault} :
    ofValue data = .error fault ↔ (faults data).head? = some fault := by
  cases data with
  | record fields =>
      rw [ofValue, overrides, faults, List.head?_append, List.head?_append]
      cases states : readTable .rules State.ofName? fields with
      | error first =>
          rw [(readTable_eq_error_iff isSome_setting?_state).mp states]
          simp [bind, Except.bind]
      | ok stateTable =>
          rw [fieldFaults_of_readTable isSome_setting?_state states]
          cases severities : readTable .severity Severity.ofName? fields with
          | error first =>
              rw [(readTable_eq_error_iff isSome_setting?_severity).mp severities]
              simp [bind, Except.bind]
          | ok severityTable =>
              rw [fieldFaults_of_readTable isSome_setting?_severity severities,
                ← map_unknownCode? states severities]
              simp only [bind, Except.bind, pure, Except.pure]
              cases unknownCode? (stateTable.map Prod.fst ++ severityTable.map Prod.fst) with
              | none => simp
              | some code => simp
  | _ => simp [ofValue, overrides, faults, bind, Except.bind]

theorem exists_ofValue_eq_ok_iff {data : Value} :
    (∃ config, ofValue data = .ok config) ↔ IsAcceptable data := by
  rw [← faults_eq_nil_iff]
  cases listed : faults data with
  | nil =>
      refine iff_of_true ?_ rfl
      cases outcome : ofValue data with
      | ok config => exact ⟨config, rfl⟩
      | error fault =>
          have first := ofValue_eq_error_iff.mp outcome
          rw [listed] at first
          cases first
  | cons fault others =>
      refine iff_of_false ?_ (List.cons_ne_nil _ _)
      rintro ⟨config, accepted⟩
      have reported : ofValue data = .error fault := by
        rw [ofValue_eq_error_iff, listed]
        rfl
      rw [accepted] at reported
      cases reported

/--
Configuration data is accepted exactly if it is acceptable, and otherwise its
first fault is reported.  The faults of a field's settings and codes count in the
order in which a record's fields are visited: list indices first and ascending,
then the other names by the place where they were written first, each with the
value that was written last.
-/
theorem ofValue_reports_first_fault (data : Value) :
    ((∃ config, ofValue data = .ok config) ↔ IsAcceptable data) ∧
    (∀ fault, ofValue data = .error fault ↔ (faults data).head? = some fault) ∧
    ∀ settings, Value.Visits settings (Value.inOrder settings) :=
  ⟨exists_ofValue_eq_ok_iff, fun _ => ofValue_eq_error_iff, Value.visits_inOrder⟩

/-- A reserved name is checked for its value and not for its code. -/
example : faults (.record [("severity", .list []),
      ("rules", .record [("B", .text "on"), ("7", .text "x"), ("__proto__", .null)])]) =
    [.invalidSetting .rules "7" (.text "x"), .invalidSetting .rules "__proto__" .null,
      .fieldNotARecord .severity, .unknownRule "7", .unknownRule "B"] :=
  rfl

end Config
end JuliaLint

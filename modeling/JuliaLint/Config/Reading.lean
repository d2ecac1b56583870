import JuliaLint.Config.Basic
import JuliaLint.Config.Fault

namespace JuliaLint
namespace Config

/-!
Configurations from untrusted data.  The data must be a record, whose fields
`rules` and `severity` may be absent or else must be records of valid settings
for known rules.  The first fault is reported, in this order: the data itself,
the field `rules` and its settings, the field `severity` and its settings, and
last the codes that name no rule.  Data without a fault gives a complete
configuration.
-/

/-- The name that may carry a setting and still names nothing. -/
def reservedName : String := "__proto__"

/-- The setting that a value denotes. -/
def setting? {α : Type} (ofName? : String → Option α) : Value → Option α
  | .text word => ofName? word
  | _ => none

/-- The settings of the listed fields, up to the first that is invalid. -/
def readSettings {α : Type} (field : ConfigField) (ofName? : String → Option α) :
    List (String × Value) → Except ConfigFault (Table α)
  | [] => .ok []
  | (code, value) :: settings =>
      match setting? ofName? value with
      | none => .error (.invalidSetting field code value)
      | some setting => do
          let table ← readSettings field ofName? settings
          return if code = reservedName then table else (code, setting) :: table

/-- The table in a field of the data; an absent field is an empty table. -/
def readTable {α : Type} (field : ConfigField) (ofName? : String → Option α)
    (data : List (String × Value)) : Except ConfigFault (Table α) :=
  match Value.field? data field.name with
  | none => .ok []
  | some (.record settings) => readSettings field ofName? (Value.inOrder settings)
  | some _ => .error (.fieldNotARecord field)

/-- The first code that names no rule. -/
def unknownCode? (codes : List String) : Option String :=
  codes.find? fun code => (Rule.ofCode? code).isNone

/-- The settings that the data itself holds, before any code is looked up. -/
def overrides : Value → Except ConfigFault Config
  | .record data => do
      let states ← readTable .rules State.ofName? data
      let severities ← readTable .severity Severity.ofName? data
      return { states, severities }
  | _ => .error .notARecord

/-- The complete configuration that the data denotes, or its first fault. -/
def ofValue (data : Value) : Except ConfigFault Config := do
  let config ← overrides data
  match unknownCode? (config.states.map Prod.fst ++ config.severities.map Prod.fst) with
  | some code => .error (.unknownRule code)
  | none => return config.complete

end Config
end JuliaLint

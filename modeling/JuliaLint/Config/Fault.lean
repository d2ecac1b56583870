import JuliaLint.Config.Value

namespace JuliaLint

/-!
What can be wrong with configuration data.  A fault is a cause, and its message
is derived from it; only the message for an invalid setting quotes the data,
and it exists only if the quoted value has a text.
-/

inductive ConfigField where
  | rules
  | severity
  deriving DecidableEq, Repr

namespace ConfigField

def name : ConfigField → String
  | rules => "rules"
  | severity => "severity"

/-- What a setting in the field is called. -/
def setting : ConfigField → String
  | rules => "state"
  | severity => "severity"

def allowed : ConfigField → String
  | rules => "'on', 'off', or 'warn'"
  | severity => "'error', 'warning', or 'info'"

end ConfigField

/-- Why data is not a configuration. -/
inductive ConfigFault where
  | notARecord
  | fieldNotARecord (field : ConfigField)
  | invalidSetting (field : ConfigField) (code : String) (value : Value)
  | unknownRule (code : String)

namespace ConfigFault

/-- What is wrong, after the words that all faults share. -/
def reason : ConfigFault → Except Unprintable String
  | notARecord => .ok "must be an object"
  | fieldNotARecord field => .ok (field.name ++ " must be an object")
  | invalidSetting field code value => do
      let shown ← value.display
      return "rule " ++ code ++ " has invalid " ++ field.setting ++ " \"" ++ shown ++
        "\" (must be " ++ field.allowed ++ ")"
  | unknownRule code => .ok ("unknown rule " ++ code)

/-- The message of a fault, unless it quotes a value that has no text. -/
def message (fault : ConfigFault) : Except Unprintable String := do
  let reason ← fault.reason
  return "Invalid configuration: " ++ reason

end ConfigFault

end JuliaLint

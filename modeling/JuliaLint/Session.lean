import JuliaLint.Config.Reading
import JuliaLint.Report

namespace JuliaLint

/-!
Editing sessions.  A session has a script and a configuration; each action may
change one of them, and after each action the script is linted.  An action
that fails changes nothing, and the session goes on.
-/

/-- A script and the configuration it is linted under. -/
structure Session where
  source : Text
  config : Config
  deriving DecidableEq, Repr

namespace Session

inductive Action where
  | lint
  | append (text : Text)
  | edit (start stop : Int) (replacement : Text)
  | fix
  | configure (data : Value)

/-- The session after an action, or why the action fails. -/
def perform (session : Session) : Action → Except ConfigFault Session
  | .lint => .ok session
  | .append text => .ok { session with source := session.source ++ text }
  | .edit start stop replacement =>
      let patch : Patch := { code := "", applicable := true, start, stop, replacement }
      .ok { session with source := (repair session.source [patch]).text }
  | .fix => .ok { session with source := (repairAll session.source session.config).text }
  | .configure data => do
      let config ← Config.ofValue data
      return { session with config }

/-- The report after each action, or why the action failed. -/
def run (session : Session) : List Action → List (Except ConfigFault Report)
  | [] => []
  | action :: actions =>
      match session.perform action with
      | .error fault => .error fault :: run session actions
      | .ok next => .ok (JuliaLint.lint next.source next.config) :: run next actions

end Session
end JuliaLint

import JuliaLint.Inspection
import JuliaLint.Repair

namespace JuliaLint

/-!
Reports.  A script without findings is clean.  Otherwise the report counts all
findings, lists the first ten, and gives the script back: repaired if the
finding on negated membership tests is among the listed ones, and unchanged if
it is not.
-/

inductive Report where
  /-- Nothing was found in the script. -/
  | clean (script : Text)
  /-- The number of findings, those listed, whether the script was repaired, and the script. -/
  | dirty (total : Int) (listed : List Finding) (repaired : Bool) (script : Text)
  deriving DecidableEq, Repr

def listingLimit : Nat := 10

namespace Report

def script : Report → Text
  | clean script => script
  | dirty _ _ _ script => script

def isRepaired : Report → Bool
  | clean _ => false
  | dirty _ _ repaired _ => repaired

/-- The listed findings whose edits repair the script. -/
def repairing (listed : List Finding) : List Finding :=
  listed.filter fun finding => finding.code == Rule.negatedMembership.code

/-- The report on a script with the given findings. -/
def ofFindings (source : Text) : (findings : List Finding) → Report
  | [] => clean source
  | first :: others =>
      let total := (first :: others).length
      let listed := (first :: others).take listingLimit
      match repairing listed with
      | [] => dirty total listed false source
      | finding :: findings =>
          dirty total listed true
            (repair source ((finding :: findings).flatMap Finding.patches)).text

/-- The report as text: a heading, the messages if any, and the script. -/
def render : Report → Text
  | clean script => "✅ Clean! Ready for Julia.\n\nCode:\n" ++ script
  | dirty total listed _ script =>
      let messages := listed.map fun finding => Text.ofString "- " ++ finding.message
      "❌ Fixes (" ++ Text.ofInt total ++ "):\n" ++ Text.join "\n" messages ++
        "\n\nFixed code:\n" ++ script

end Report

def lint (source : Text) (config : Config) : Report :=
  Report.ofFindings source (inspect source config)

/-- Lints a script, then the script that the report gives back, and so on. -/
def lintRepeatedly (config : Config) : (rounds : Nat) → (source : Text) → List Report
  | 0, _ => []
  | rounds + 1, source =>
      let report := lint source config
      report :: lintRepeatedly config rounds report.script

/-- Repairs a script by the edits of all its findings. -/
def repairAll (source : Text) (config : Config) : Repair :=
  repair source ((inspect source config).flatMap Finding.patches)

end JuliaLint

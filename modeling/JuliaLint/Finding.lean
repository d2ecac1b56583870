import JuliaLint.Text.Position

namespace JuliaLint

/-!
Findings about a script.  A finding names the rule that made it by the rule's
code, says how serious it is, and carries the complete message that a reader
sees.  It may point at a position, and it may propose edits, each of which
replaces the text between two positions.
-/

inductive Severity where
  | error
  | warning
  | info
  deriving DecidableEq, Repr

namespace Severity

def name : Severity → String
  | error => "error"
  | warning => "warning"
  | info => "info"

def all : List Severity :=
  [error, warning, info]

def ofName? (word : String) : Option Severity :=
  all.find? fun severity => severity.name == word

end Severity

inductive Category where
  | blocks
  | strings
  | formatting
  | antiPatterns
  deriving DecidableEq, Repr

namespace Category

def name : Category → String
  | blocks => "blocks"
  | strings => "strings"
  | formatting => "formatting"
  | antiPatterns => "anti-patterns"

def all : List Category :=
  [blocks, strings, formatting, antiPatterns]

def ofName? (words : String) : Option Category :=
  all.find? fun category => category.name == words

end Category

/-- A proposed replacement of the text between two positions. -/
structure Edit where
  description : Text
  /-- Whether the edit may be made without asking. -/
  applicable : Bool
  start : Position
  stop : Position
  replacement : Text
  deriving DecidableEq, Repr

structure Finding where
  code : String
  category : Category
  severity : Severity
  message : Text
  /-- The first offending place, or nothing if the whole text is at fault. -/
  position? : Option Position
  edits : List Edit
  deriving DecidableEq, Repr

namespace Finding

/-- The finding on one line: severity, code and message. -/
def summary (finding : Finding) : Text :=
  Text.ofString finding.severity.name ++ " " ++ Text.ofString finding.code ++ ": " ++
    finding.message

end Finding
end JuliaLint

import JuliaLint.Config.Value
import JuliaLint.Report

namespace JuliaLint
namespace CommandLine

/-!
The command line.  Only the first argument counts: without one the usage is
shown, a hyphen selects standard input, and anything else names a file.  The
report goes to standard output and the program succeeds even if it has
findings; only a script that cannot be read is an error.
-/

def usage : String :=
  "Usage: jlcheck [file.jl] or | jlcheck -"

/-- What the arguments ask for. -/
inductive Request where
  | usage
  | standardInput
  | file (path : String)
  deriving DecidableEq, Repr

def Request.ofArguments : List String → Request
  | [] => .usage
  | "-" :: _ => .standardInput
  | path :: _ => .file path

inductive ReadFault where
  /-- There is nothing at the path. -/
  | missing (path : String)
  /-- The path leads to a directory. -/
  | directory
  /-- The input was broken off for a reason of its own. -/
  | interrupted (reason : Value)

/-- The message of a read fault, unless its reason has no text. -/
def ReadFault.message : ReadFault → Except Unprintable String
  | .missing path => .ok ("ENOENT: no such file or directory, open '" ++ path ++ "'")
  | .directory => .ok "EISDIR: illegal operation on a directory, read"
  | .interrupted reason => reason.display

/-- What the program prints and the status it exits with. -/
structure Answer where
  output : Text
  errors : Text
  status : Nat
  deriving DecidableEq, Repr

/-- A line on standard output and success. -/
def Answer.success (line : Text) : Answer where
  output := line ++ [CodeUnit.lineFeed]
  errors := []
  status := 0

/-- A line on standard error and failure. -/
def Answer.failure (line : Text) : Answer where
  output := []
  errors := line ++ [CodeUnit.lineFeed]
  status := 1

/-- The answer to a script, or to the failure to read it. -/
def answerScript : Except ReadFault Text → Except Unprintable Answer
  | .ok source => .ok (Answer.success (lint source Config.standard).render)
  | .error fault => do
      let message ← fault.message
      return Answer.failure (Text.ofString ("Error: " ++ message))

/-- The answer to a list of arguments, given standard input and a way to read files. -/
def answer (arguments : List String) (standardInput : Except ReadFault Text)
    (readFile : String → Except ReadFault Text) : Except Unprintable Answer :=
  match Request.ofArguments arguments with
  | .usage => .ok (Answer.success (Text.ofString usage))
  | .standardInput => answerScript standardInput
  | .file path => answerScript (readFile path)

end CommandLine
end JuliaLint

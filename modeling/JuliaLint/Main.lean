import JuliaLint.CommandLine
import JuliaLint.Text.Utf8

namespace JuliaLint
namespace CommandLine

/-!
The program: it reads the script that its arguments select, prints the answer
and exits with its status.
-/

/-- The bytes of a stream, up to its end. -/
partial def readStream (stream : IO.FS.Stream) (bytes : ByteArray) : IO ByteArray := do
  let chunk ← stream.read 65536
  if chunk.isEmpty then
    return bytes
  else
    readStream stream (bytes ++ chunk)

/-- Why a path could not be read. -/
def ReadFault.ofError (path : String) : IO.Error → ReadFault
  | .noFileOrDirectory .. => .missing path
  | .inappropriateType .. => .directory
  | error => .interrupted (.text error.toString)

def readText (path : String) (read : IO ByteArray) : IO (Except ReadFault Text) := do
  try
    let bytes ← read
    return .ok (Utf8.decode bytes.toList)
  catch error =>
    return .error (ReadFault.ofError path error)

def respond (arguments : List String) : IO (Except Unprintable Answer) := do
  match Request.ofArguments arguments with
  | .usage => return .ok (Answer.success (Text.ofString usage))
  | .standardInput =>
      let stream ← IO.getStdin
      return answerScript (← readText "-" (readStream stream ByteArray.empty))
  | .file path => return answerScript (← readText path (IO.FS.readBinFile path))

end CommandLine
end JuliaLint

def main (arguments : List String) : IO UInt32 := do
  match ← JuliaLint.CommandLine.respond arguments with
  | .ok answer =>
      IO.print (JuliaLint.Text.toReadableString answer.output)
      IO.eprint (JuliaLint.Text.toReadableString answer.errors)
      return UInt32.ofNat answer.status
  | .error fault =>
      IO.eprintln fault.message
      return 1

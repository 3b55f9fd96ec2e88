import Mel.CommandLine

/-!
# The program `mel`

Reads the file of a command and, to run it, the whole standard input, and passes
on what the command reports.
-/

namespace Mel

/-- All bytes that are left on a stream. -/
partial def readAll (stream : IO.FS.Stream) (read : ByteArray) : IO ByteArray := do
  let chunk ← stream.read 65536
  if chunk.isEmpty then return read else readAll stream (read ++ chunk)

def readFile? (file : String) : IO (Option ByteArray) := do
  try
    return some (← IO.FS.readBinFile file)
  catch _ =>
    return none

def report (arguments : List String) : IO Command.Report := do
  match Command.ofArguments? arguments with
  | none => return .badUsage
  | some command =>
      let contents ← readFile? command.file
      let input ← match command.task with
        | .run => readAll (← IO.getStdin) .empty
        | .tokenize | .parse => pure .empty
      return command.perform contents input.toList

end Mel

def main (arguments : List String) : IO UInt32 := do
  let report ← Mel.report arguments
  let output ← IO.getStdout
  output.write ⟨report.output⟩
  output.flush
  (← IO.getStderr).putStr report.complaint
  return UInt32.ofNat report.status

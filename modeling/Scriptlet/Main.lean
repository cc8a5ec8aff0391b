import Scriptlet.CommandLine.Shell
import Std.Time.DateTime.Timestamp

/-! The command. All readings of the clock show the time at which the program, or the line of the
prompt, was started. -/
namespace Scriptlet.CommandLine

def currentHost : IO Host := do
  let t ← Std.Time.Timestamp.now
  return .still frameLimit t.toNanosecondsSinceUnixEpoch.val

/-- The text of a file, if it can be read. -/
def readText? (file : String) : IO (Option String) := do
  try
    let text ← IO.FS.readFile file
    return some text
  catch _ => return none

def finish (t : Transcript) : IO UInt32 := do
  IO.print t.output
  IO.eprint t.errors
  match t.exit with
  | .status code => return code.toUInt32
  | .crash v =>
    IO.eprint (crashText v)
    return 1

/-- Runs a line at a time, so that output stands after the line that caused it. -/
partial def promptLoop (s : Session) : IO UInt32 := do
  IO.print promptMark
  (← IO.getStdout).flush
  let line ← (← IO.getStdin).getLine
  if line.isEmpty then
    IO.println ""
    return 0
  let (r, s) := s.run ampleFuel (← currentHost) (String.join (Text.lines line))
  let code ← finish (.ofReport r)
  match Exit.ofVerdict r.verdict with
  | .status _ => promptLoop s
  | .crash _ => return code

end Scriptlet.CommandLine

open Scriptlet Scriptlet.CommandLine in
def main (args : List String) : IO UInt32 := do
  match Request.ofArguments args with
  | .prompt =>
    IO.print banner
    promptLoop .new
  | .script file =>
    if isScript file then
      match ← readText? file with
      | some text => finish (runScript ampleFuel (← currentHost) text)
      | none => finish (.refusal (notFound file))
    else finish (.refusal (notScript file))
  | .help => finish .help
  | .usageError message => finish (.usageError message)

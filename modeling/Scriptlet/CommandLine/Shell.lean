import Scriptlet.CommandLine.Arguments
import Scriptlet.CommandLine.Path
import Scriptlet.Session
import Scriptlet.Text.Lines

/-! What the command does: a script runs once, and without one the lines of the input run one after
another. -/
namespace Scriptlet.CommandLine

def extension : String := ".shim"

def banner : String := "Shimmer v0.0.1 (ALPHA)\n"

def promptMark : String := "> "

/-- The frames that the command asks the host for. -/
def frameLimit : Nat := 20000

def notScript (file : String) : String :=
  "Error: File '" ++ fileName file ++ "' is not a " ++ extension ++ " file.\n"

def notFound (file : String) : String := "Error: File '" ++ file ++ "' not found.\n"

def isScript (file : String) : Bool := suffix (fileName file) == extension

/-- How the command ends: with a status, or without one. -/
inductive Exit where
  | status (code : Nat)
  | crash (v : Verdict)
deriving DecidableEq, Repr

def Exit.ofVerdict : Verdict → Exit
  | .success => .status 0
  | .badSyntax _ | .badScopes _ => .status 65
  | .failed _ => .status 70
  | v => .crash v

/-- The last words of a command that ends without a status of its own. -/
def crashText : Verdict → String
  | .aborted f => f.message ++ "\n"
  | .garbled f => f.message ++ "\n"
  | _ => ""

/-- All that is seen of the command. -/
structure Transcript where
  exit : Exit
  output : String
  errors : String

namespace Transcript

def ofReport (r : RunReport) : Transcript := ⟨.ofVerdict r.verdict, r.output, r.errors⟩

def help : Transcript := ⟨.status 0, helpText, ""⟩

def usageError (message : String) : Transcript := ⟨.status 2, "", usageErrorText message⟩

/-- No program was run, for the given reason. -/
def refusal (reason : String) : Transcript := ⟨.status 65, "", reason⟩

/-- The same, after other output. -/
def after (output errors : String) (t : Transcript) : Transcript :=
  { t with output := output ++ t.output, errors := errors ++ t.errors }

end Transcript

variable (fuel : Nat)

def runScript (host : Host) (text : String) : Transcript :=
  .ofReport (Session.new.run fuel host (String.ofList (Text.unifyNewlines text.toList))).1

/-- Errors in the lines do not decide the status; only a fault ends the loop before the input. -/
def runLines : Session → List (Host × String) → Transcript
  | _, [] => ⟨.status 0, promptMark ++ "\n", ""⟩
  | s, (host, line) :: lines =>
    let (r, s) := s.run fuel host line
    match Exit.ofVerdict r.verdict with
    | .status _ => (runLines s lines).after (promptMark ++ r.output) r.errors
    | .crash v => ⟨.crash v, promptMark ++ r.output, r.errors⟩

/-- The lines of the input, each with the host as it is when the line is run. -/
def prompted (hosts : Nat → Host) (input : String) : List (Host × String) :=
  (Text.lines input).zipIdx.map fun (line, i) => (hosts i, line)

/-- The command with the given arguments, in a folder, on an input. -/
def run (hosts : Nat → Host) (folder : Folder) (args : List String) (input : String) :
    Transcript :=
  match Request.ofArguments args with
  | .help => .help
  | .usageError message => .usageError message
  | .prompt => (runLines fuel .new (prompted hosts input)).after banner ""
  | .script file =>
    if isScript file then
      match folder.read? file with
      | some text => runScript fuel (hosts 0) text
      | none => .refusal (notFound file)
    else .refusal (notScript file)

end Scriptlet.CommandLine

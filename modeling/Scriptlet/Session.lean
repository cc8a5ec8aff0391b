import Scriptlet.Eval.Run
import Scriptlet.Scan
import Scriptlet.Parse.Program
import Scriptlet.Resolve.Address
import Scriptlet.Resolve.Check

/-! A session runs one program after another; later programs see the globals of earlier ones. -/
namespace Scriptlet

/-- What outlives a program. -/
structure Session where
  store : Store Value
  closures : Nat

/-- How a program ended. For errors of syntax or of scope it is not run at all. An error of the
program stops it; so does a fault, which is none. `garbled` and `unfinished`, for want of fuel, are
not reached from a text with fuel enough. -/
inductive Verdict where
  | success
  | badSyntax (reports : List Diagnostic)
  | badScopes (reports : List ScopeReport)
  | failed (e : RuntimeError)
  | aborted (f : Fault)
  | garbled (f : ParseFault)
  | unfinished
deriving DecidableEq, Repr

namespace Verdict

/-- The program was not run. -/
def isRejection : Verdict → Bool
  | badSyntax _ | badScopes _ => true
  | _ => false

/-- The program was stopped by an error of its own. -/
def isFailure : Verdict → Bool
  | failed _ => true
  | _ => false

/-- What the user is told, one error a line. -/
def errors : Verdict → String
  | badSyntax reports => Diagnostic.text reports
  | badScopes reports => ScopeReport.text reports
  | failed e => e.line ++ "\n"
  | success | aborted _ | garbled _ | unfinished => ""

end Verdict

/-- What is seen of a run, or of as much of it as the fuel lasted for. -/
structure RunReport where
  verdict : Verdict
  printed : Array Value

def RunReport.output (r : RunReport) : String := Value.lines r.printed

def RunReport.errors (r : RunReport) : String := r.verdict.errors

/-- More than any program uses that ends within a lifetime. -/
def ampleFuel : Nat := Nat.pow 2 60

/-- The natives belong to no line. -/
def Native.token (f : Native) : Token := ⟨.identifier, f.name, ⟨0, 0⟩⟩

/-- Statement by statement, as programs at top level run: how one ends does not matter to the next,
unless it fails. -/
def execEach (fuel : Nat) (c : Context) : List (Stmt Address) → Machine → Outcome Unit
  | [], m => .done () m
  | s :: ss, m => (exec fuel c s m).bind fun _ m => execEach fuel c ss m

/-- What is reported of a program that has this outcome. -/
def Outcome.report : Outcome Unit → RunReport
  | done _ m => ⟨.success, m.printed⟩
  | stopped (.error e) m => ⟨.failed e, m.printed⟩
  | stopped (.fault f) m => ⟨.aborted f, m.printed⟩
  | outOfFuel m => ⟨.unfinished, m.printed⟩

namespace Session

/-- With nothing but the given natives; one name can be there only once. -/
def ofNatives (natives : List Native) : Except Stop Session :=
  let define (store : Store Value) (f : Native) := store.define Machine.globals f.token (.native f)
  (natives.foldlM define Store.empty.grow).map (⟨·, 0⟩)

/-- With all natives. -/
def new : Session :=
  let add (store : Store Value) (f : Native) := store.add Machine.globals f.name (.native f)
  ⟨Native.all.foldl add Store.empty.grow, 0⟩

/-- Ready to run; the clock has not been read and nothing has been printed. -/
def machine (s : Session) : Machine := ⟨s.store, s.closures, 0, #[]⟩

def ofMachine (m : Machine) : Session := ⟨m.store, m.closures⟩

/-- Top-level statements run in the scope of the globals. -/
def context (host : Host) : Context := ⟨Machine.globals, .start host⟩

/-- Runs a program that has its addresses. What was done before a failure remains. -/
def interpret (fuel : Nat) (host : Host) (s : Session) (program : List (Stmt Address)) :
    RunReport × Session :=
  match execEach fuel (context host) program s.machine with
  | .done _ m => (⟨.success, m.printed⟩, ofMachine m)
  | .stopped (.error e) m => (⟨.failed e, m.printed⟩, ofMachine m)
  | .stopped (.fault f) m => (⟨.aborted f, m.printed⟩, ofMachine m)
  | .outOfFuel m => (⟨.unfinished, m.printed⟩, s)

theorem interpret_report (fuel : Nat) (host : Host) (s : Session) (program : List (Stmt Address)) :
    (s.interpret fuel host program).1 =
      (execEach fuel (context host) program s.machine).report := by
  unfold interpret
  rcases execEach fuel (context host) program s.machine with _ | ⟨_ | _, _⟩ | _ <;> rfl

/-- Runs the program that the tokens make up, if nothing is wrong with it. -/
def runTokens (fuel : Nat) (host : Host) (s : Session) (tokens : List Token) :
    RunReport × Session :=
  match parse host.frames tokens with
  | .error f => (⟨.garbled f, #[]⟩, s)
  | .ok parsed =>
    if parsed.reports ≠ [] then (⟨.badSyntax parsed.reports, #[]⟩, s)
    else if check parsed.statements ≠ [] then (⟨.badScopes (check parsed.statements), #[]⟩, s)
    else s.interpret fuel host (resolve parsed.statements)

/-- Runs a program text. -/
def run (fuel : Nat) (host : Host) (s : Session) (text : String) : RunReport × Session :=
  s.runTokens fuel host (scan text)

/-- One text after another, each on the host as it finds it. -/
def runAll (fuel : Nat) : Session → List (Host × String) → List RunReport
  | _, [] => []
  | s, (host, text) :: texts =>
    let (report, s) := s.run fuel host text
    report :: s.runAll fuel texts

end Session
end Scriptlet

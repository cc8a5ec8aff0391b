import Scriptlet.Session

/-! Statements run on their own, one by one, each with a report. -/
namespace Scriptlet

/-- How a statement ended, as it is shown. -/
def Flow.dump? : Flow → Option String
  | .normal => none
  | .jump .exit => some "Signal(BREAK, None)"
  | .jump .again => some "Signal(CONTINUE, None)"
  | .give v => some ("Signal(RETURN, " ++ v.dump ++ ")")

/-- What one statement did: how it ended, and what it printed. -/
structure StepReport where
  ending : Except Stop Flow
  printed : Array Value

def StepReport.output (r : StepReport) : String := Value.lines r.printed

/-- Each statement runs, whether or not those before it failed; `none` for want of fuel. -/
def Session.perform (fuel : Nat) (host : Host) :
    Session → List (Stmt Address) → Option (List StepReport)
  | _, [] => some []
  | s, stmt :: stmts =>
    match exec fuel (context host) stmt s.machine with
    | .done flow m => (perform fuel host (ofMachine m) stmts).map (⟨.ok flow, m.printed⟩ :: ·)
    | .stopped why m => (perform fuel host (ofMachine m) stmts).map (⟨.error why, m.printed⟩ :: ·)
    | .outOfFuel _ => none

end Scriptlet

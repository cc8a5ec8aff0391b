import Scriptlet.Parse.Program
import Scriptlet.Resolve.Check

/-! The same program in another layout: each token is moved to another position, and nothing else
about it changes. -/
namespace Scriptlet

/-- Where each token is to stand. -/
abbrev Layout := Token → Position

variable {ρ : Type} (l : Layout)

def Token.moved (t : Token) : Token := { t with pos := l t }

@[simp] theorem Token.kind_moved (t : Token) : (t.moved l).kind = t.kind := rfl

@[simp] theorem Token.lexeme_moved (t : Token) : (t.moved l).lexeme = t.lexeme := rfl

mutual

def Expr.moved : Expr ρ → Expr ρ
  | .assign name value use => .assign (name.moved l) value.moved use
  | .binary left operator right => .binary left.moved (operator.moved l) right.moved
  | .call callee paren arguments => .call callee.moved (paren.moved l) (Expr.movedAll arguments)
  | .conditional condition yes no => .conditional condition.moved yes.moved no.moved
  | .grouping inner => .grouping inner.moved
  | .literal value => .literal value
  | .unary operator right => .unary (operator.moved l) right.moved
  | .reference name use => .reference (name.moved l) use

def Expr.movedAll : List (Expr ρ) → List (Expr ρ)
  | [] => []
  | e :: es => e.moved :: Expr.movedAll es

end

mutual

def Stmt.moved : Stmt ρ → Stmt ρ
  | .block body => .block (Stmt.movedAll body)
  | .jump j keyword => .jump j (keyword.moved l)
  | .doLoop body condition => .doLoop body.moved (condition.moved l)
  | .expression value => .expression (value.moved l)
  | .function name params body =>
    .function (name.moved l) (params.map (Token.moved l)) (Stmt.movedAll body)
  | .ifThen condition body => .ifThen (condition.moved l) body.moved
  | .ifElse condition yes no => .ifElse (condition.moved l) yes.moved no.moved
  | .print value => .print (value.moved l)
  | .give keyword value => .give (keyword.moved l) (value.map (Expr.moved l))
  | .switch subject arms => .switch (subject.moved l) arms.moved
  | .var name init => .var (name.moved l) (init.map (Expr.moved l))
  | .loop condition body => .loop (condition.moved l) body.moved
  | .loopStep condition body step => .loopStep (condition.moved l) body.moved step.moved

def Stmt.movedAll : List (Stmt ρ) → List (Stmt ρ)
  | [] => []
  | s :: ss => s.moved :: Stmt.movedAll ss

def Arms.moved : Arms ρ → Arms ρ
  | .done => .done
  | .otherwise body => .otherwise body.moved
  | .case condition body rest => .case (condition.moved l) body.moved rest.moved

end

def Diagnostic.moved (d : Diagnostic) : Diagnostic := { d with token := d.token.moved l }

def ScopeReport.moved (r : ScopeReport) : ScopeReport := { r with token := r.token.moved l }

def Parsed.moved (p : Parsed) : Parsed :=
  ⟨Stmt.movedAll l p.statements, p.reports.map (Diagnostic.moved l)⟩

theorem Diagnostic.token_moved (d : Diagnostic) : (d.moved l).token = d.token.moved l := rfl

theorem Diagnostic.cause_moved (d : Diagnostic) : (d.moved l).cause = d.cause := rfl

/-- What a diagnostic says is the same anywhere. -/
theorem Diagnostic.place_moved (t : Token) : place (t.moved l) = place t := by
  unfold place
  rw [Token.kind_moved, Token.lexeme_moved]

theorem Diagnostic.told_moved (reports : List Diagnostic) :
    told (reports.map (moved l)) = (told reports).map (moved l) := by
  simp only [told, List.filter_map]
  rfl

theorem ScopeReport.message_moved (r : ScopeReport) : (r.moved l).message = r.message := rfl

end Scriptlet

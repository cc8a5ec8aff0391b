import Scriptlet.Resolve.Scopes
import Scriptlet.Parse.Diagnostic

/-! What is wrong with a program although its syntax is right: names declared twice or read too
early, and jumps and returns that have nothing to leave. -/
namespace Scriptlet

inductive ScopeError where
  | redeclared
  | ownInitializer
  | topLevelReturn
  | strayJump (jump : Jump)
deriving DecidableEq, Repr

/-- An error and the token it is about. -/
structure ScopeReport where
  token : Token
  cause : ScopeError
deriving DecidableEq, Repr

namespace ScopeReport

def message (r : ScopeReport) : String :=
  match r.cause with
  | .redeclared => "Variable '" ++ r.token.lexeme ++ "' already defined in this scope."
  | .ownInitializer =>
    "Can't read local variable '" ++ r.token.lexeme ++ "' in its own initializer."
  | .topLevelReturn => "Can't return from top-level code."
  | .strayJump j => j.strayMessage

def line (r : ScopeReport) : String :=
  "[Line " ++ toString r.token.pos.line ++ "] Error: " ++ r.message

end ScopeReport

/-- What is around a statement: a function, and a loop of that function. -/
structure Surroundings where
  inFunction : Bool
  inLoop : Bool
deriving DecidableEq, Repr

namespace Surroundings

def top : Surroundings := ⟨false, false⟩

def loop (c : Surroundings) : Surroundings := { c with inLoop := true }

def function : Surroundings := ⟨true, false⟩

end Surroundings

/-- The report, if there is cause for it. -/
def reportIf (bad : Bool) (token : Token) (cause : ScopeError) : List ScopeReport :=
  if bad then [⟨token, cause⟩] else []

/-- Parameters share a scope, so each is checked against those before it. -/
def Scopes.checkParams (scopes : Scopes) : List Token → List ScopeReport
  | [] => []
  | p :: ps => reportIf (scopes.clashes p) p .redeclared ++ (scopes.define p).checkParams ps

variable {ρ : Type}

mutual

def Expr.check (scopes : Scopes) : Expr ρ → List ScopeReport
  | .assign _ value _ => value.check scopes
  | .binary left _ right => left.check scopes ++ right.check scopes
  | .call callee _ arguments => callee.check scopes ++ Expr.checkAll scopes arguments
  | .conditional condition thenBranch elseBranch =>
    condition.check scopes ++ thenBranch.check scopes ++ elseBranch.check scopes
  | .grouping inner => inner.check scopes
  | .literal _ => []
  | .unary _ right => right.check scopes
  | .reference name _ => reportIf (scopes.isPending name) name .ownInitializer

def Expr.checkAll (scopes : Scopes) : List (Expr ρ) → List ScopeReport
  | [] => []
  | e :: es => e.check scopes ++ Expr.checkAll scopes es

end

def Expr.check? (scopes : Scopes) : Option (Expr ρ) → List ScopeReport
  | some e => e.check scopes
  | none => []

mutual

def Stmt.check (c : Surroundings) (scopes : Scopes) : Stmt ρ → List ScopeReport
  | .block body => Stmt.checkAll c ([] :: scopes) body
  | .jump j keyword => reportIf (!c.inLoop) keyword (.strayJump j)
  | .doLoop body condition =>
    body.check c.loop scopes ++ condition.check (body.declare scopes)
  | .expression value | .print value => value.check scopes
  | .function name params body =>
    reportIf (scopes.clashes name) name .redeclared ++
      Scopes.checkParams ([] :: scopes.define name) params ++
      Stmt.checkAll .function ((scopes.define name).enter params) body
  | .ifThen condition thenBranch => condition.check scopes ++ thenBranch.check c scopes
  | .ifElse condition thenBranch elseBranch =>
    condition.check scopes ++ thenBranch.check c scopes ++
      elseBranch.check c (thenBranch.declare scopes)
  | .give keyword value =>
    reportIf (!c.inFunction) keyword .topLevelReturn ++ Expr.check? scopes value
  | .switch subject arms => subject.check scopes ++ arms.check c scopes
  | .var name init =>
    reportIf (scopes.clashes name) name .redeclared ++ Expr.check? (scopes.declare name) init
  | .loop condition body => condition.check scopes ++ body.check c.loop scopes
  | .loopStep condition body step =>
    condition.check scopes ++ body.check c.loop scopes ++ step.check c (body.declare scopes)

def Stmt.checkAll (c : Surroundings) (scopes : Scopes) : List (Stmt ρ) → List ScopeReport
  | [] => []
  | s :: ss => s.check c scopes ++ Stmt.checkAll c (s.declare scopes) ss

def Arms.check (c : Surroundings) (scopes : Scopes) : Arms ρ → List ScopeReport
  | .done => []
  | .otherwise body => body.check c scopes
  | .case condition body rest =>
    condition.check scopes ++ body.check c scopes ++ rest.check c (body.declare scopes)

end

/-- The errors of a whole program, in the order of its text. -/
def check (program : List (Stmt ρ)) : List ScopeReport := Stmt.checkAll .top [] program

/-- One report a line. -/
def ScopeReport.text (reports : List ScopeReport) : String :=
  String.join (reports.map fun r => r.line ++ "\n")

end Scriptlet

import Scriptlet.Resolve.Scopes

/-! Addresses: every use of a variable is marked with the scope its name is found in. What the tree
was marked with before plays no part. -/
namespace Scriptlet

variable {ρ : Type}

mutual

def Expr.resolve (scopes : Scopes) : Expr ρ → Expr Address
  | .assign name value _ => .assign name (value.resolve scopes) (scopes.address name)
  | .binary left operator right => .binary (left.resolve scopes) operator (right.resolve scopes)
  | .call callee paren arguments =>
    .call (callee.resolve scopes) paren (Expr.resolveAll scopes arguments)
  | .conditional condition thenBranch elseBranch =>
    .conditional (condition.resolve scopes) (thenBranch.resolve scopes) (elseBranch.resolve scopes)
  | .grouping inner => .grouping (inner.resolve scopes)
  | .literal value => .literal value
  | .unary operator right => .unary operator (right.resolve scopes)
  | .reference name _ => .reference name (scopes.address name)

def Expr.resolveAll (scopes : Scopes) : List (Expr ρ) → List (Expr Address)
  | [] => []
  | e :: es => e.resolve scopes :: Expr.resolveAll scopes es

end

mutual

def Stmt.resolve (scopes : Scopes) : Stmt ρ → Stmt Address
  | .block body => .block (Stmt.resolveAll ([] :: scopes) body)
  | .jump j keyword => .jump j keyword
  | .doLoop body condition =>
    .doLoop (body.resolve scopes) (condition.resolve (body.declare scopes))
  | .expression value => .expression (value.resolve scopes)
  | .function name params body =>
    .function name params (Stmt.resolveAll ((scopes.define name).enter params) body)
  | .ifThen condition thenBranch =>
    .ifThen (condition.resolve scopes) (thenBranch.resolve scopes)
  | .ifElse condition thenBranch elseBranch =>
    .ifElse (condition.resolve scopes) (thenBranch.resolve scopes)
      (elseBranch.resolve (thenBranch.declare scopes))
  | .print value => .print (value.resolve scopes)
  | .give keyword value => .give keyword (value.map (Expr.resolve scopes))
  | .switch subject arms => .switch (subject.resolve scopes) (arms.resolve scopes)
  | .var name init => .var name (init.map (Expr.resolve (scopes.declare name)))
  | .loop condition body => .loop (condition.resolve scopes) (body.resolve scopes)
  | .loopStep condition body step =>
    .loopStep (condition.resolve scopes) (body.resolve scopes) (step.resolve (body.declare scopes))

/-- Each statement sees what those before it declare. -/
def Stmt.resolveAll (scopes : Scopes) : List (Stmt ρ) → List (Stmt Address)
  | [] => []
  | s :: ss => s.resolve scopes :: Stmt.resolveAll (s.declare scopes) ss

def Arms.resolve (scopes : Scopes) : Arms ρ → Arms Address
  | .done => .done
  | .otherwise body => .otherwise (body.resolve scopes)
  | .case condition body rest =>
    .case (condition.resolve scopes) (body.resolve scopes) (rest.resolve (body.declare scopes))

end

/-- A whole program, with no scope around it. -/
def resolve (program : List (Stmt ρ)) : List (Stmt Address) := Stmt.resolveAll [] program

end Scriptlet

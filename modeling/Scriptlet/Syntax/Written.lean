import Scriptlet.Syntax.Form

/-! Between syntax trees and their forms. -/
namespace Scriptlet

variable {ρ : Type}

def Literal.toForm : Literal → Form
  | .nil => .null
  | .bool b => .bool b
  | .number x => .number x
  | .string s => .string s

mutual

def Expr.toForm : Expr ρ → Form
  | .assign name value _ => .node .assign [.token name, value.toForm] none
  | .binary left operator right =>
    .node .binary [left.toForm, .token operator, right.toForm] none
  | .call callee paren arguments =>
    .node .call [callee.toForm, .token paren, .list (Expr.toForms arguments)] none
  | .conditional condition thenBranch elseBranch =>
    .node .conditional [condition.toForm, thenBranch.toForm, elseBranch.toForm] none
  | .grouping inner => .node .grouping [inner.toForm] none
  | .literal value => .node .literal [value.toForm] none
  | .unary operator right => .node .unary [.token operator, right.toForm] none
  | .reference name _ => .node .reference [.token name] none

def Expr.toForms : List (Expr ρ) → List Form
  | [] => []
  | e :: es => e.toForm :: Expr.toForms es

end

/-- An absent part is null. -/
def Expr.toForm? : Option (Expr ρ) → Form
  | some e => e.toForm
  | none => .null

def Jump.label : Jump → Label
  | .exit => .breaks
  | .again => .continues

mutual

def Stmt.toForm : Stmt ρ → Form
  | .block body => .node .block [.list (Stmt.toForms body)] none
  | .jump j keyword => .node j.label [.token keyword] none
  | .doLoop body condition => .node .doWhile [body.toForm, condition.toForm] none
  | .expression value => .node .expression [value.toForm] none
  | .function name params body =>
    .node .function [.token name, .list (params.map .token), .list (Stmt.toForms body)] none
  | .ifThen condition thenBranch => .node .ifs [condition.toForm, thenBranch.toForm, .null] none
  | .ifElse condition thenBranch elseBranch =>
    .node .ifs [condition.toForm, thenBranch.toForm, elseBranch.toForm] none
  | .print value => .node .print [value.toForm] none
  | .give keyword value => .node .returns [.token keyword, Expr.toForm? value] none
  | .switch subject arms => .node .switch [subject.toForm, .list arms.cases, arms.default] none
  | .var name init => .node .var [.token name, Expr.toForm? init] none
  | .loop condition body => .node .whiles [condition.toForm, body.toForm, .null] none
  | .loopStep condition body step =>
    .node .whiles [condition.toForm, body.toForm, step.toForm] none

def Stmt.toForms : List (Stmt ρ) → List Form
  | [] => []
  | s :: ss => s.toForm :: Stmt.toForms ss

def Arms.cases : Arms ρ → List Form
  | .case condition body rest => .case condition.toForm body.toForm :: rest.cases
  | _ => []

def Arms.default : Arms ρ → Form
  | .done => .null
  | .otherwise body => body.toForm
  | .case _ _ rest => rest.default

end

/-- The tree in full, on one line. -/
def Stmt.dump (s : Stmt ρ) : String := s.toForm.dump

namespace Form

/-- A use without a distance is of a global. -/
def address : Option Int → Address
  | some d => .up d
  | none => .global

def toLiteral? : Form → Option Literal
  | .null => some .nil
  | .bool b => some (.bool b)
  | .number x => some (.number x)
  | .string s => some (.string s)
  | _ => none

def toToken? : Form → Option Token
  | .token t => some t
  | _ => none

mutual

def toExpr? : Form → Option (Expr Address)
  | .node .assign [.token name, value] d => do return .assign name (← value.toExpr?) (address d)
  | .node .binary [left, .token operator, right] _ => do
    return .binary (← left.toExpr?) operator (← right.toExpr?)
  | .node .call [callee, .token paren, .list arguments] _ => do
    return .call (← callee.toExpr?) paren (← toExprs? arguments)
  | .node .conditional [condition, thenBranch, elseBranch] _ => do
    return .conditional (← condition.toExpr?) (← thenBranch.toExpr?) (← elseBranch.toExpr?)
  | .node .grouping [inner] _ => do return .grouping (← inner.toExpr?)
  | .node .literal [value] _ => do return .literal (← value.toLiteral?)
  | .node .unary [.token operator, right] _ => do return .unary operator (← right.toExpr?)
  | .node .reference [.token name] d => some (.reference name (address d))
  | _ => none

def toExprs? : List Form → Option (List (Expr Address))
  | [] => some []
  | f :: fs => do return (← f.toExpr?) :: (← toExprs? fs)

end

mutual

/-- The tree a form is of, if all its parts are of the right sort. -/
def toStmt? : Form → Option (Stmt Address)
  | .node .block [.list body] _ => do return .block (← toStmts? body)
  | .node .breaks [.token keyword] _ => some (.jump .exit keyword)
  | .node .continues [.token keyword] _ => some (.jump .again keyword)
  | .node .doWhile [body, condition] _ => do return .doLoop (← body.toStmt?) (← condition.toExpr?)
  | .node .expression [value] _ => do return .expression (← value.toExpr?)
  | .node .function [.token name, .list params, .list body] _ => do
    return .function name (← params.mapM toToken?) (← toStmts? body)
  | .node .ifs [condition, thenBranch, .null] _ => do
    return .ifThen (← condition.toExpr?) (← thenBranch.toStmt?)
  | .node .ifs [condition, thenBranch, elseBranch] _ => do
    return .ifElse (← condition.toExpr?) (← thenBranch.toStmt?) (← elseBranch.toStmt?)
  | .node .print [value] _ => do return .print (← value.toExpr?)
  | .node .returns [.token keyword, .null] _ => some (.give keyword none)
  | .node .returns [.token keyword, value] _ => do return .give keyword (some (← value.toExpr?))
  | .node .switch [subject, .list cases, default] _ => do
    return .switch (← subject.toExpr?) (← toArms? default.toDefault? cases)
  | .node .var [.token name, .null] _ => some (.var name none)
  | .node .var [.token name, init] _ => do return .var name (some (← init.toExpr?))
  | .node .whiles [condition, body, .null] _ => do
    return .loop (← condition.toExpr?) (← body.toStmt?)
  | .node .whiles [condition, body, step] _ => do
    return .loopStep (← condition.toExpr?) (← body.toStmt?) (← step.toStmt?)
  | _ => none

def toStmts? : List Form → Option (List (Stmt Address))
  | [] => some []
  | f :: fs => do return (← f.toStmt?) :: (← toStmts? fs)

def toDefault? : Form → Option (Arms Address)
  | .null => some .done
  | f => do return .otherwise (← f.toStmt?)

def toArms? (last : Option (Arms Address)) : List Form → Option (Arms Address)
  | [] => last
  | .case condition body :: fs => do
    return .case (← condition.toExpr?) (← body.toStmt?) (← toArms? last fs)
  | _ => none

end

end Form
end Scriptlet

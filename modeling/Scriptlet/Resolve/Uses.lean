import Scriptlet.Syntax

/-! The table of the uses of local variables in a resolved program. -/
namespace Scriptlet

structure Use where
  name : Token
  assigns : Bool
  distance : Int
deriving DecidableEq, Repr

/-- Uses of globals have no distance and are not in the table. -/
def Address.uses (name : Token) (assigns : Bool) : Address → List Use
  | .global => []
  | .up d => [⟨name, assigns, d⟩]

mutual

def Expr.uses : Expr Address → List Use
  | .assign name value address => value.uses ++ address.uses name true
  | .binary left _ right => left.uses ++ right.uses
  | .call callee _ arguments => callee.uses ++ Expr.usesIn arguments
  | .conditional condition thenBranch elseBranch =>
    condition.uses ++ thenBranch.uses ++ elseBranch.uses
  | .grouping inner => inner.uses
  | .literal _ => []
  | .unary _ right => right.uses
  | .reference name address => address.uses name false

def Expr.usesIn : List (Expr Address) → List Use
  | [] => []
  | e :: es => e.uses ++ Expr.usesIn es

end

def Expr.uses? : Option (Expr Address) → List Use
  | some e => e.uses
  | none => []

mutual

def Stmt.uses : Stmt Address → List Use
  | .block body | .function _ _ body => Stmt.usesIn body
  | .jump _ _ => []
  | .doLoop body condition => body.uses ++ condition.uses
  | .expression value | .print value => value.uses
  | .ifThen condition body | .loop condition body => condition.uses ++ body.uses
  | .ifElse condition first second | .loopStep condition first second =>
    condition.uses ++ first.uses ++ second.uses
  | .give _ value | .var _ value => Expr.uses? value
  | .switch subject arms => subject.uses ++ arms.uses

def Stmt.usesIn : List (Stmt Address) → List Use
  | [] => []
  | s :: ss => s.uses ++ Stmt.usesIn ss

def Arms.uses : Arms Address → List Use
  | .done => []
  | .otherwise body => body.uses
  | .case condition body rest => condition.uses ++ body.uses ++ rest.uses

end

/-- By position; at one position assignments first, then by name and by distance. -/
def Use.order (u v : Use) : Ordering :=
  (compare u.name.pos.line v.name.pos.line).then
    ((compare u.name.pos.column v.name.pos.column).then
      ((compare v.assigns.toNat u.assigns.toNat).then
        ((compare u.name.lexeme v.name.lexeme).then (compare u.distance v.distance))))

/-- The uses of a program in the order of the text. -/
def useTable (program : List (Stmt Address)) : List Use :=
  (Stmt.usesIn program).mergeSort fun u v => (u.order v).isLE

end Scriptlet

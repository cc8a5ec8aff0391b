import Scriptlet.Syntax

/-! The scopes around a point of a program. Top-level declarations are in none of them. -/
namespace Scriptlet

/-- The names declared so far, the latest first; the flag tells whether the declaration is
complete. -/
abbrev Names := List (String × Bool)

def Names.binds (names : Names) (name : String) : Bool := (names.lookup name).isSome

/-- From the innermost outward. -/
abbrev Scopes := List Names

namespace Scopes

/-- A declaration at top level leaves no trace here. -/
def add (name : String) (complete : Bool) : Scopes → Scopes
  | [] => []
  | names :: outer => ((name, complete) :: names) :: outer

/-- A name whose initializer is still to come. -/
def declare (scopes : Scopes) (name : Token) : Scopes := scopes.add name.lexeme false

def define (scopes : Scopes) (name : Token) : Scopes := scopes.add name.lexeme true

/-- The innermost scope has the name already. -/
def clashes (scopes : Scopes) (name : Token) : Bool :=
  match scopes with
  | [] => false
  | names :: _ => names.binds name.lexeme

/-- The innermost scope has the name, and its initializer is still to come. -/
def isPending (scopes : Scopes) (name : Token) : Bool :=
  match scopes with
  | [] => false
  | names :: _ => names.lookup name.lexeme == some false

/-- How many scopes lie between here and the innermost one with the name. -/
def distance? (scopes : Scopes) (name : Token) : Option Nat :=
  scopes.findIdx? fun names => names.binds name.lexeme

def address (scopes : Scopes) (name : Token) : Address :=
  match scopes.distance? name with
  | some d => .up d
  | none => .global

/-- The parameters of a function are declared in one scope with its body. -/
def enter (scopes : Scopes) (params : List Token) : Scopes := params.foldl define ([] :: scopes)

end Scopes

variable {ρ : Type}

mutual

/-- The scopes after a statement. What it declares in scopes of its own is gone. -/
def Stmt.declare (scopes : Scopes) : Stmt ρ → Scopes
  | .var name _ | .function name _ _ => scopes.define name
  | .ifThen _ body | .loop _ body | .doLoop body _ => body.declare scopes
  | .ifElse _ first second | .loopStep _ first second => second.declare (first.declare scopes)
  | .switch _ arms => arms.declare scopes
  | .block _ | .jump _ _ | .expression _ | .print _ | .give _ _ => scopes

def Arms.declare (scopes : Scopes) : Arms ρ → Scopes
  | .done => scopes
  | .otherwise body => body.declare scopes
  | .case _ body rest => rest.declare (body.declare scopes)

end

end Scriptlet

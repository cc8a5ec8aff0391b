import Scriptlet.Token

/-! Syntax trees. The parameter `ρ` is what a use of a variable is marked with: nothing after
parsing, an address once its scope is known. -/
namespace Scriptlet

inductive Literal where
  | nil
  | bool (b : Bool)
  | number (x : Float)
  | string (s : String)

/-- The operator of `binary` is any token: logic and the comma are operators too. The token of a
call is its closing parenthesis. -/
inductive Expr (ρ : Type) where
  | assign (name : Token) (value : Expr ρ) (use : ρ)
  | binary (left : Expr ρ) (operator : Token) (right : Expr ρ)
  | call (callee : Expr ρ) (paren : Token) (arguments : List (Expr ρ))
  | conditional (condition thenBranch elseBranch : Expr ρ)
  | grouping (inner : Expr ρ)
  | literal (value : Literal)
  | unary (operator : Token) (right : Expr ρ)
  | reference (name : Token) (use : ρ)

instance {ρ : Type} : Inhabited (Expr ρ) := ⟨.literal .nil⟩

inductive Jump where
  | exit | again
deriving DecidableEq, Repr

mutual

/-- The step of `loopStep` runs after each round that does not leave the loop. -/
inductive Stmt (ρ : Type) where
  | block (body : List (Stmt ρ))
  | jump (jump : Jump) (keyword : Token)
  | doLoop (body : Stmt ρ) (condition : Expr ρ)
  | expression (value : Expr ρ)
  | function (name : Token) (params : List Token) (body : List (Stmt ρ))
  | ifThen (condition : Expr ρ) (thenBranch : Stmt ρ)
  | ifElse (condition : Expr ρ) (thenBranch elseBranch : Stmt ρ)
  | print (value : Expr ρ)
  | give (keyword : Token) (value : Option (Expr ρ))
  | switch (subject : Expr ρ) (arms : Arms ρ)
  | var (name : Token) (init : Option (Expr ρ))
  | loop (condition : Expr ρ) (body : Stmt ρ)
  | loopStep (condition : Expr ρ) (body step : Stmt ρ)

/-- The arms of a switch, at most the last of them for the subjects no case meets. -/
inductive Arms (ρ : Type) where
  | done
  | otherwise (body : Stmt ρ)
  | case (condition : Expr ρ) (body : Stmt ρ) (rest : Arms ρ)

end

instance {ρ : Type} : Inhabited (Stmt ρ) := ⟨.block []⟩

/-- Where a use finds its variable: among the globals, or so many scopes outward. -/
inductive Address where
  | global
  | up (distance : Int)
deriving DecidableEq, Repr, Inhabited

end Scriptlet

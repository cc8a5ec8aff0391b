import Scriptlet.Proofs.Scoping.Visits

/-! A local variable gets another name: in its declaration, and in the uses that mean it. -/
namespace Scriptlet

/-- The variable of that name, of the block or the function at the place, gets a new name. -/
structure Renaming where
  scope : Place
  old : String
  new : String

namespace Renaming

variable (r : Renaming)

/-- A name, `here` if it is the name of something in that scope. -/
def key (here : Bool) (z : String) : String := if here = true ∧ z = r.old then r.new else z

def token (here : Bool) (t : Token) : Token := { t with lexeme := r.key here t.lexeme }

/-- The name in a declaration that stands at the place. -/
def declared (p : Place) (name : Token) : Token := r.token (p.scopes.head? = some r.scope) name

/-- The use means something in that scope, if it stands at the place and the resolver has these
scopes there. -/
def means (p : Place) (scopes : Scopes) (name : Token) : Bool :=
  ((scopes.distance? name).bind fun d => p.scopes[d]?) = some r.scope

/-- The name in a use. -/
def used (p : Place) (scopes : Scopes) (name : Token) : Token :=
  r.token (r.means p scopes name) name

variable {r} {here : Bool} {z : String}

theorem key_injective {n : String} (hz : here = true → z ≠ r.new) (hn : here = true → n ≠ r.new) :
    r.key here z = r.key here n ↔ z = n := by
  unfold key
  by_cases h : here = true ∧ z = r.old
  · rw [if_pos h]
    by_cases h' : here = true ∧ n = r.old
    · rw [if_pos h', h.2, h'.2]
      simp
    · rw [if_neg h']
      constructor
      · intro he
        exact absurd he.symm (hn h.1)
      · intro he
        exact absurd ⟨h.1, he ▸ h.2⟩ h'
  · rw [if_neg h]
    by_cases h' : here = true ∧ n = r.old
    · rw [if_pos h']
      constructor
      · intro he
        exact absurd he (hz h'.1)
      · intro he
        exact absurd ⟨h'.1, he ▸ h'.2⟩ h
    · rw [if_neg h']

@[simp] theorem key_false : r.key false z = z := by simp [key]

@[simp] theorem token_false (t : Token) : r.token false t = t := by simp [token]

@[simp] theorem lexeme_token (t : Token) : (r.token here t).lexeme = r.key here t.lexeme := rfl

end Renaming

variable {ρ : Type}

mutual

/-- The marks of the uses stay as they are. -/
def Expr.rename (r : Renaming) (p : Place) (scopes : Scopes) : Expr ρ → Expr ρ
  | .assign name value use =>
    .assign (r.used p scopes name) (value.rename r (.child 0 :: p) scopes) use
  | .binary left operator right =>
    .binary (left.rename r (.child 0 :: p) scopes) operator (right.rename r (.child 1 :: p) scopes)
  | .call callee paren arguments =>
    .call (callee.rename r (.child 0 :: p) scopes) paren
      (Expr.renameAll r (.child 1 :: p) scopes arguments)
  | .conditional condition thenBranch elseBranch =>
    .conditional (condition.rename r (.child 0 :: p) scopes)
      (thenBranch.rename r (.child 1 :: p) scopes) (elseBranch.rename r (.child 2 :: p) scopes)
  | .grouping inner => .grouping (inner.rename r (.child 0 :: p) scopes)
  | .literal value => .literal value
  | .unary operator right => .unary operator (right.rename r (.child 0 :: p) scopes)
  | .reference name use => .reference (r.used p scopes name) use

def Expr.renameAll (r : Renaming) (p : Place) (scopes : Scopes) : List (Expr ρ) → List (Expr ρ)
  | [] => []
  | e :: es =>
    e.rename r (.child 0 :: p) scopes :: Expr.renameAll r (.child 1 :: p) scopes es

end

mutual

/-- The places and the scopes are those of `Task.Inside` and `Task.stack`. -/
def Stmt.rename (r : Renaming) (p : Place) (scopes : Scopes) : Stmt ρ → Stmt ρ
  | .block body => .block (Stmt.renameAll r (.block :: p) ([] :: scopes) body)
  | .jump j keyword => .jump j keyword
  | .doLoop body condition =>
    .doLoop (body.rename r (.child 0 :: p) scopes)
      (condition.rename r (.child 1 :: p) (body.declare scopes))
  | .expression value => .expression (value.rename r (.child 0 :: p) scopes)
  | .function name params body =>
    .function (r.declared p name) (params.map (r.declared (.body :: p)))
      (Stmt.renameAll r (.body :: p) ((scopes.define name).enter params) body)
  | .ifThen condition thenBranch =>
    .ifThen (condition.rename r (.child 0 :: p) scopes)
      (thenBranch.rename r (.child 1 :: p) scopes)
  | .ifElse condition thenBranch elseBranch =>
    .ifElse (condition.rename r (.child 0 :: p) scopes)
      (thenBranch.rename r (.child 1 :: p) scopes)
      (elseBranch.rename r (.child 2 :: p) (thenBranch.declare scopes))
  | .print value => .print (value.rename r (.child 0 :: p) scopes)
  | .give keyword value => .give keyword (value.map (Expr.rename r (.child 0 :: p) scopes))
  | .switch subject arms =>
    .switch (subject.rename r (.child 0 :: p) scopes) (arms.rename r (.child 1 :: p) scopes)
  | .var name init =>
    .var (r.declared p name)
      (init.map (Expr.rename r (.initializer name :: p) (scopes.declare name)))
  | .loop condition body =>
    .loop (condition.rename r (.child 0 :: p) scopes) (body.rename r (.child 1 :: p) scopes)
  | .loopStep condition body step =>
    .loopStep (condition.rename r (.child 0 :: p) scopes) (body.rename r (.child 1 :: p) scopes)
      (step.rename r (.child 2 :: p) (body.declare scopes))

def Stmt.renameAll (r : Renaming) (p : Place) (scopes : Scopes) : List (Stmt ρ) → List (Stmt ρ)
  | [] => []
  | s :: ss =>
    s.rename r (.child 0 :: p) scopes :: Stmt.renameAll r (.child 1 :: p) (s.declare scopes) ss

def Arms.rename (r : Renaming) (p : Place) (scopes : Scopes) : Arms ρ → Arms ρ
  | .done => .done
  | .otherwise body => .otherwise (body.rename r (.child 0 :: p) scopes)
  | .case condition body rest =>
    .case (condition.rename r (.child 0 :: p) scopes) (body.rename r (.child 1 :: p) scopes)
      (rest.rename r (.child 2 :: p) (body.declare scopes))

end

/-- A whole program. -/
def Renaming.program (r : Renaming) (program : List (Stmt ρ)) : List (Stmt ρ) :=
  Stmt.renameAll r [] [] program

mutual

/-- All names of variables and functions. -/
def Expr.names : Expr ρ → List String
  | .assign name value _ => name.lexeme :: value.names
  | .binary left _ right => left.names ++ right.names
  | .call callee _ arguments => callee.names ++ Expr.namesIn arguments
  | .conditional condition thenBranch elseBranch =>
    condition.names ++ (thenBranch.names ++ elseBranch.names)
  | .grouping inner => inner.names
  | .literal _ => []
  | .unary _ right => right.names
  | .reference name _ => [name.lexeme]

def Expr.namesIn : List (Expr ρ) → List String
  | [] => []
  | e :: es => e.names ++ Expr.namesIn es

end

def Expr.names? : Option (Expr ρ) → List String
  | some e => e.names
  | none => []

mutual

def Stmt.names : Stmt ρ → List String
  | .block body => Stmt.namesIn body
  | .jump _ _ => []
  | .doLoop body condition => body.names ++ condition.names
  | .expression value | .print value => value.names
  | .function name params body => name.lexeme :: (params.map Token.lexeme ++ Stmt.namesIn body)
  | .ifThen condition body | .loop condition body => condition.names ++ body.names
  | .ifElse condition first second | .loopStep condition first second =>
    condition.names ++ (first.names ++ second.names)
  | .give _ value => Expr.names? value
  | .switch subject arms => subject.names ++ arms.names
  | .var name init => name.lexeme :: Expr.names? init

def Stmt.namesIn : List (Stmt ρ) → List String
  | [] => []
  | s :: ss => s.names ++ Stmt.namesIn ss

def Arms.names : Arms ρ → List String
  | .done => []
  | .otherwise body => body.names
  | .case condition body rest => condition.names ++ (body.names ++ rest.names)

end

/-- A declaration in a block or function, the one at the place. -/
structure Declaration where
  scope : Place
  name : Token
  isFunction : Bool

/-- A declaration that stands at the place. Those at top level are not local. -/
def Declaration.here (p : Place) (name : Token) (isFunction : Bool) : List Declaration :=
  (p.scopes.head?.map (⟨·, name, isFunction⟩)).toList

/-- A parameter of the function at the place. -/
def Declaration.param (p : Place) (name : Token) : Declaration := ⟨.body :: p, name, false⟩

mutual

/-- The local declarations: of variables, functions and parameters. -/
def Stmt.locals (p : Place) : Stmt ρ → List Declaration
  | .block body => Stmt.localsIn (.block :: p) body
  | .jump _ _ | .expression _ | .print _ | .give _ _ => []
  | .doLoop body _ => body.locals (.child 0 :: p)
  | .function name params body =>
    Declaration.here p name true ++
      (params.map (Declaration.param p) ++ Stmt.localsIn (.body :: p) body)
  | .ifThen _ body | .loop _ body => body.locals (.child 1 :: p)
  | .ifElse _ first second | .loopStep _ first second =>
    first.locals (.child 1 :: p) ++ second.locals (.child 2 :: p)
  | .switch _ arms => arms.locals (.child 1 :: p)
  | .var name _ => Declaration.here p name false

def Stmt.localsIn (p : Place) : List (Stmt ρ) → List Declaration
  | [] => []
  | s :: ss => s.locals (.child 0 :: p) ++ Stmt.localsIn (.child 1 :: p) ss

def Arms.locals (p : Place) : Arms ρ → List Declaration
  | .done => []
  | .otherwise body => body.locals (.child 0 :: p)
  | .case _ body rest => body.locals (.child 1 :: p) ++ rest.locals (.child 2 :: p)

end

/-- The declaration gets the new name. -/
def Declaration.renaming (d : Declaration) (new : String) : Renaming :=
  ⟨d.scope, d.name.lexeme, new⟩

end Scriptlet

import Scriptlet.Resolve.Check

/-! The jump statements of a program, and which of them the resolver reports. -/
namespace Scriptlet

/-- A jump statement of a tree, and whether it is in a loop of the same function. -/
structure JumpNode where
  jump : Jump
  keyword : Token
  inLoop : Bool
deriving DecidableEq, Repr

/-- The jump and the keyword, if there is no loop to leave. -/
def JumpNode.stray? (node : JumpNode) : Option (Jump × Token) :=
  if node.inLoop then none else some (node.jump, node.keyword)

def ScopeReport.stray? (r : ScopeReport) : Option (Jump × Token) :=
  match r.cause with
  | .strayJump j => some (j, r.token)
  | _ => none

variable {ρ : Type}

mutual

/-- In the order of the text. -/
def Stmt.jumps (inLoop : Bool) : Stmt ρ → List JumpNode
  | .block body => Stmt.jumpsAll inLoop body
  | .jump j keyword => [⟨j, keyword, inLoop⟩]
  | .loop _ body | .doLoop body _ => body.jumps true
  | .loopStep _ body step => body.jumps true ++ step.jumps inLoop
  | .function _ _ body => Stmt.jumpsAll false body
  | .ifThen _ body => body.jumps inLoop
  | .ifElse _ first second => first.jumps inLoop ++ second.jumps inLoop
  | .switch _ arms => arms.jumps inLoop
  | .expression _ | .print _ | .give _ _ | .var _ _ => []

def Stmt.jumpsAll (inLoop : Bool) : List (Stmt ρ) → List JumpNode
  | [] => []
  | s :: ss => s.jumps inLoop ++ Stmt.jumpsAll inLoop ss

def Arms.jumps (inLoop : Bool) : Arms ρ → List JumpNode
  | .done => []
  | .otherwise body => body.jumps inLoop
  | .case _ body rest => body.jumps inLoop ++ rest.jumps inLoop

end

@[simp] theorem Stmt.jumpsAll_append (inLoop : Bool) (ss ts : List (Stmt ρ)) :
    Stmt.jumpsAll inLoop (ss ++ ts) = Stmt.jumpsAll inLoop ss ++ Stmt.jumpsAll inLoop ts := by
  induction ss with
  | nil => rfl
  | cons s ss ih => simp [Stmt.jumpsAll, ih]

@[simp] theorem stray_reportIf {cause : ScopeError} (h : ∀ j, cause ≠ .strayJump j) (bad : Bool)
    (t : Token) : (reportIf bad t cause).filterMap ScopeReport.stray? = [] := by
  cases bad with
  | false => rfl
  | true =>
    cases cause with
    | strayJump j => exact absurd rfl (h j)
    | redeclared | ownInitializer | topLevelReturn => rfl

mutual

@[simp] theorem Expr.stray_check (Γ : Scopes) :
    (e : Expr ρ) → (e.check Γ).filterMap ScopeReport.stray? = []
  | .assign _ value _ => value.stray_check Γ
  | .binary left _ right => by
    rw [Expr.check, List.filterMap_append, left.stray_check, right.stray_check]
    rfl
  | .call callee _ arguments => by
    rw [Expr.check, List.filterMap_append, callee.stray_check, Expr.stray_checkAll]
    rfl
  | .conditional condition yes no => by
    rw [Expr.check, List.filterMap_append, List.filterMap_append, condition.stray_check,
      yes.stray_check, no.stray_check]
    rfl
  | .grouping inner => inner.stray_check Γ
  | .literal _ => rfl
  | .unary _ right => right.stray_check Γ
  | .reference name _ => by simp [Expr.check]

theorem Expr.stray_checkAll (Γ : Scopes) :
    (es : List (Expr ρ)) → (Expr.checkAll Γ es).filterMap ScopeReport.stray? = []
  | [] => rfl
  | e :: es => by
    rw [Expr.checkAll, List.filterMap_append, e.stray_check, Expr.stray_checkAll]
    rfl

end

@[simp] theorem Expr.stray_check? (Γ : Scopes) (e : Option (Expr ρ)) :
    (Expr.check? Γ e).filterMap ScopeReport.stray? = [] := by
  cases e with
  | none => rfl
  | some e => exact e.stray_check Γ

@[simp] theorem stray_checkParams (Γ : Scopes) (ps : List Token) :
    (Γ.checkParams ps).filterMap ScopeReport.stray? = [] := by
  induction ps generalizing Γ with
  | nil => rfl
  | cons p ps ih => simp [Scopes.checkParams, ih]

theorem Surroundings.inLoop_loop (c : Surroundings) : c.loop.inLoop = true := rfl

theorem Surroundings.inLoop_function : Surroundings.function.inLoop = false := rfl

mutual

/-- The resolver reports a jump for standing in no loop exactly where it does. -/
theorem Stmt.stray_check (c : Surroundings) (Γ : Scopes) : (s : Stmt ρ) →
    (s.check c Γ).filterMap ScopeReport.stray? =
      (s.jumps c.inLoop).filterMap JumpNode.stray?
  | .block body => Stmt.stray_checkAll c _ body
  | .jump j keyword => by
    cases h : c.inLoop <;> simp [Stmt.check, Stmt.jumps, reportIf, ScopeReport.stray?,
      JumpNode.stray?, h]
  | .loop _ body | .doLoop body _ => by
    have hbody := body.stray_check c.loop Γ
    rw [Surroundings.inLoop_loop] at hbody
    simp [Stmt.check, Stmt.jumps, hbody]
  | .loopStep _ body step => by
    have hbody := body.stray_check c.loop Γ
    have hstep := step.stray_check c (body.declare Γ)
    rw [Surroundings.inLoop_loop] at hbody
    simp [Stmt.check, Stmt.jumps, hbody, hstep]
  | .function name params body => by
    have hbody := Stmt.stray_checkAll .function ((Γ.define name).enter params) body
    rw [Surroundings.inLoop_function] at hbody
    simp [Stmt.check, Stmt.jumps, hbody]
  | .ifThen _ body => by simpa [Stmt.check, Stmt.jumps] using body.stray_check c Γ
  | .ifElse _ first second => by
    have hfirst := first.stray_check c Γ
    have hsecond := second.stray_check c (first.declare Γ)
    simp [Stmt.check, Stmt.jumps, hfirst, hsecond]
  | .switch _ arms => by simpa [Stmt.check, Stmt.jumps] using arms.stray_check c Γ
  | .expression _ | .print _ | .give _ _ | .var _ _ => by simp [Stmt.check, Stmt.jumps]

theorem Stmt.stray_checkAll (c : Surroundings) (Γ : Scopes) : (ss : List (Stmt ρ)) →
    (Stmt.checkAll c Γ ss).filterMap ScopeReport.stray? =
      (Stmt.jumpsAll c.inLoop ss).filterMap JumpNode.stray?
  | [] => rfl
  | s :: ss => by
    rw [Stmt.checkAll, Stmt.jumpsAll, List.filterMap_append, List.filterMap_append,
      s.stray_check c Γ, Stmt.stray_checkAll c _ ss]

theorem Arms.stray_check (c : Surroundings) (Γ : Scopes) : (as : Arms ρ) →
    (as.check c Γ).filterMap ScopeReport.stray? =
      (as.jumps c.inLoop).filterMap JumpNode.stray?
  | .done => rfl
  | .otherwise body => body.stray_check c Γ
  | .case _ body rest => by
    have hbody := body.stray_check c Γ
    have hrest := rest.stray_check c (body.declare Γ)
    simp [Arms.check, Arms.jumps, hbody, hrest]

end

end Scriptlet

import Scriptlet.Proofs.Layout.Moved
import Scriptlet.Resolve.Address

/-! Names mean what they mean wherever they stand: addresses, and what is wrong with a program, go
by the lexemes alone. -/
namespace Scriptlet

variable {ρ : Type} (l : Layout)

namespace Scopes

theorem enter_moved (scopes : Scopes) (params : List Token) :
    scopes.enter (params.map (Token.moved l)) = scopes.enter params :=
  List.foldl_map

theorem checkParams_moved (scopes : Scopes) (params : List Token) :
    scopes.checkParams (params.map (Token.moved l)) =
      (scopes.checkParams params).map (ScopeReport.moved l) := by
  induction params generalizing scopes with
  | nil => rfl
  | cons p ps ih =>
    have hdefine : scopes.define (p.moved l) = scopes.define p := rfl
    have hclashes : scopes.clashes (p.moved l) = scopes.clashes p := rfl
    rw [List.map_cons, checkParams, checkParams, hdefine, ih, hclashes, List.map_append]
    congr 1
    cases scopes.clashes p <;> rfl

end Scopes

theorem reportIf_moved (bad : Bool) (t : Token) (cause : ScopeError) :
    reportIf bad (t.moved l) cause = (reportIf bad t cause).map (ScopeReport.moved l) := by
  cases bad <;> rfl

mutual

theorem Stmt.declare_moved (scopes : Scopes) :
    ∀ s : Stmt ρ, (s.moved l).declare scopes = s.declare scopes
  | .var _ _ | .function _ _ _ => rfl
  | .block _ | .jump _ _ | .expression _ | .print _ | .give _ _ => rfl
  | .ifThen _ body | .loop _ body | .doLoop body _ => body.declare_moved scopes
  | .ifElse _ first second | .loopStep _ first second => by
    rw [Stmt.moved, Stmt.declare, Stmt.declare, first.declare_moved, second.declare_moved]
  | .switch _ arms => arms.declare_moved scopes

theorem Arms.declare_moved (scopes : Scopes) :
    ∀ arms : Arms ρ, (arms.moved l).declare scopes = arms.declare scopes
  | .done => rfl
  | .otherwise body => body.declare_moved scopes
  | .case _ body rest => by
    rw [Arms.moved, Arms.declare, Arms.declare, body.declare_moved, rest.declare_moved]

end

mutual

theorem Expr.resolve_moved (scopes : Scopes) :
    ∀ e : Expr ρ, (e.moved l).resolve scopes = (e.resolve scopes).moved l
  | .literal _ | .reference _ _ => rfl
  | .assign name value _ => by
    rw [Expr.moved, Expr.resolve, Expr.resolve, Expr.moved, value.resolve_moved]
    rfl
  | .binary left _ right => by
    rw [Expr.moved, Expr.resolve, Expr.resolve, Expr.moved, left.resolve_moved,
      right.resolve_moved]
  | .call callee _ arguments => by
    rw [Expr.moved, Expr.resolve, Expr.resolve, Expr.moved, callee.resolve_moved,
      Expr.resolveAll_moved]
  | .conditional condition yes no => by
    rw [Expr.moved, Expr.resolve, Expr.resolve, Expr.moved, condition.resolve_moved,
      yes.resolve_moved, no.resolve_moved]
  | .grouping inner => by
    rw [Expr.moved, Expr.resolve, Expr.resolve, Expr.moved, inner.resolve_moved]
  | .unary _ right => by
    rw [Expr.moved, Expr.resolve, Expr.resolve, Expr.moved, right.resolve_moved]

theorem Expr.resolveAll_moved (scopes : Scopes) :
    ∀ es : List (Expr ρ),
      Expr.resolveAll scopes (Expr.movedAll l es) = Expr.movedAll l (Expr.resolveAll scopes es)
  | [] => rfl
  | e :: es => by
    rw [Expr.movedAll, Expr.resolveAll, Expr.resolveAll, Expr.movedAll, e.resolve_moved,
      Expr.resolveAll_moved]

end

theorem Expr.resolve_moved_option (scopes : Scopes) (o : Option (Expr ρ)) :
    (o.map (Expr.moved l)).map (Expr.resolve scopes) =
      (o.map (Expr.resolve scopes)).map (Expr.moved l) := by
  cases o with
  | none => rfl
  | some e => exact congrArg some (e.resolve_moved l scopes)

mutual

theorem Stmt.resolve_moved (scopes : Scopes) :
    ∀ s : Stmt ρ, (s.moved l).resolve scopes = (s.resolve scopes).moved l
  | .jump _ _ => rfl
  | .block body => by
    rw [Stmt.moved, Stmt.resolve, Stmt.resolve, Stmt.moved, Stmt.resolveAll_moved]
  | .doLoop body condition => by
    rw [Stmt.moved, Stmt.resolve, Stmt.resolve, Stmt.moved, body.resolve_moved,
      body.declare_moved, condition.resolve_moved]
  | .expression value | .print value => by
    rw [Stmt.moved, Stmt.resolve, Stmt.resolve, Stmt.moved, value.resolve_moved]
  | .function name params body => by
    have hdefine : scopes.define (name.moved l) = scopes.define name := rfl
    rw [Stmt.moved, Stmt.resolve, Stmt.resolve, Stmt.moved, Stmt.resolveAll_moved, hdefine,
      Scopes.enter_moved]
  | .ifThen condition body => by
    rw [Stmt.moved, Stmt.resolve, Stmt.resolve, Stmt.moved, condition.resolve_moved,
      body.resolve_moved]
  | .ifElse condition first second => by
    rw [Stmt.moved, Stmt.resolve, Stmt.resolve, Stmt.moved, condition.resolve_moved,
      first.resolve_moved, first.declare_moved, second.resolve_moved]
  | .give keyword value => by
    rw [Stmt.moved, Stmt.resolve, Stmt.resolve, Stmt.moved, Expr.resolve_moved_option]
  | .switch subject arms => by
    rw [Stmt.moved, Stmt.resolve, Stmt.resolve, Stmt.moved, subject.resolve_moved,
      arms.resolve_moved]
  | .var name init => by
    have hdeclare : scopes.declare (name.moved l) = scopes.declare name := rfl
    rw [Stmt.moved, Stmt.resolve, Stmt.resolve, Stmt.moved, hdeclare, Expr.resolve_moved_option]
  | .loop condition body => by
    rw [Stmt.moved, Stmt.resolve, Stmt.resolve, Stmt.moved, condition.resolve_moved,
      body.resolve_moved]
  | .loopStep condition body step => by
    rw [Stmt.moved, Stmt.resolve, Stmt.resolve, Stmt.moved, condition.resolve_moved,
      body.resolve_moved, body.declare_moved, step.resolve_moved]

theorem Stmt.resolveAll_moved (scopes : Scopes) :
    ∀ ss : List (Stmt ρ),
      Stmt.resolveAll scopes (Stmt.movedAll l ss) = Stmt.movedAll l (Stmt.resolveAll scopes ss)
  | [] => rfl
  | s :: ss => by
    rw [Stmt.movedAll, Stmt.resolveAll, Stmt.resolveAll, Stmt.movedAll, s.resolve_moved,
      s.declare_moved, Stmt.resolveAll_moved]

theorem Arms.resolve_moved (scopes : Scopes) :
    ∀ arms : Arms ρ, (arms.moved l).resolve scopes = (arms.resolve scopes).moved l
  | .done => rfl
  | .otherwise body => by
    rw [Arms.moved, Arms.resolve, Arms.resolve, Arms.moved, body.resolve_moved]
  | .case condition body rest => by
    rw [Arms.moved, Arms.resolve, Arms.resolve, Arms.moved, condition.resolve_moved,
      body.resolve_moved, body.declare_moved, rest.resolve_moved]

end

mutual

theorem Expr.check_moved (scopes : Scopes) :
    ∀ e : Expr ρ, (e.moved l).check scopes = (e.check scopes).map (ScopeReport.moved l)
  | .literal _ => rfl
  | .reference name _ => reportIf_moved l (scopes.isPending name) name .ownInitializer
  | .assign _ value _ => value.check_moved scopes
  | .binary left _ right => by
    rw [Expr.moved, Expr.check, Expr.check, left.check_moved, right.check_moved, List.map_append]
  | .call callee _ arguments => by
    rw [Expr.moved, Expr.check, Expr.check, callee.check_moved, Expr.checkAll_moved,
      List.map_append]
  | .conditional condition yes no => by
    rw [Expr.moved, Expr.check, Expr.check, condition.check_moved, yes.check_moved,
      no.check_moved, List.map_append, List.map_append]
  | .grouping inner => inner.check_moved scopes
  | .unary _ right => right.check_moved scopes

theorem Expr.checkAll_moved (scopes : Scopes) :
    ∀ es : List (Expr ρ),
      Expr.checkAll scopes (Expr.movedAll l es) =
        (Expr.checkAll scopes es).map (ScopeReport.moved l)
  | [] => rfl
  | e :: es => by
    rw [Expr.movedAll, Expr.checkAll, Expr.checkAll, e.check_moved, Expr.checkAll_moved,
      List.map_append]

end

theorem Expr.check?_moved (scopes : Scopes) (o : Option (Expr ρ)) :
    Expr.check? scopes (o.map (Expr.moved l)) =
      (Expr.check? scopes o).map (ScopeReport.moved l) := by
  cases o with
  | none => rfl
  | some e => exact e.check_moved l scopes

mutual

theorem Stmt.check_moved (c : Surroundings) (scopes : Scopes) :
    ∀ s : Stmt ρ, (s.moved l).check c scopes = (s.check c scopes).map (ScopeReport.moved l)
  | .block body => Stmt.checkAll_moved c ([] :: scopes) body
  | .jump j keyword => reportIf_moved l (!c.inLoop) keyword (.strayJump j)
  | .doLoop body condition => by
    rw [Stmt.moved, Stmt.check, Stmt.check, body.check_moved, body.declare_moved,
      condition.check_moved, List.map_append]
  | .expression value | .print value => value.check_moved l scopes
  | .function name params body => by
    have hclashes : scopes.clashes (name.moved l) = scopes.clashes name := rfl
    have hdefine : scopes.define (name.moved l) = scopes.define name := rfl
    rw [Stmt.moved, Stmt.check, Stmt.check, hclashes, hdefine, reportIf_moved,
      Scopes.checkParams_moved, Scopes.enter_moved, Stmt.checkAll_moved, List.map_append,
      List.map_append]
  | .ifThen condition body => by
    rw [Stmt.moved, Stmt.check, Stmt.check, condition.check_moved, body.check_moved,
      List.map_append]
  | .ifElse condition first second => by
    rw [Stmt.moved, Stmt.check, Stmt.check, condition.check_moved, first.check_moved,
      first.declare_moved, second.check_moved, List.map_append, List.map_append]
  | .give keyword value => by
    rw [Stmt.moved, Stmt.check, Stmt.check, reportIf_moved, Expr.check?_moved, List.map_append]
  | .switch subject arms => by
    rw [Stmt.moved, Stmt.check, Stmt.check, subject.check_moved, arms.check_moved,
      List.map_append]
  | .var name init => by
    have hclashes : scopes.clashes (name.moved l) = scopes.clashes name := rfl
    have hdeclare : scopes.declare (name.moved l) = scopes.declare name := rfl
    rw [Stmt.moved, Stmt.check, Stmt.check, hclashes, hdeclare, reportIf_moved,
      Expr.check?_moved, List.map_append]
  | .loop condition body => by
    rw [Stmt.moved, Stmt.check, Stmt.check, condition.check_moved, body.check_moved,
      List.map_append]
  | .loopStep condition body step => by
    rw [Stmt.moved, Stmt.check, Stmt.check, condition.check_moved, body.check_moved,
      body.declare_moved, step.check_moved, List.map_append, List.map_append]

theorem Stmt.checkAll_moved (c : Surroundings) (scopes : Scopes) :
    ∀ ss : List (Stmt ρ),
      Stmt.checkAll c scopes (Stmt.movedAll l ss) =
        (Stmt.checkAll c scopes ss).map (ScopeReport.moved l)
  | [] => rfl
  | s :: ss => by
    rw [Stmt.movedAll, Stmt.checkAll, Stmt.checkAll, s.check_moved, s.declare_moved,
      Stmt.checkAll_moved, List.map_append]

theorem Arms.check_moved (c : Surroundings) (scopes : Scopes) :
    ∀ arms : Arms ρ,
      (arms.moved l).check c scopes = (arms.check c scopes).map (ScopeReport.moved l)
  | .done => rfl
  | .otherwise body => body.check_moved c scopes
  | .case condition body rest => by
    rw [Arms.moved, Arms.check, Arms.check, condition.check_moved, body.check_moved,
      body.declare_moved, rest.check_moved, List.map_append, List.map_append]

end

theorem resolve_moved (program : List (Stmt ρ)) :
    resolve (Stmt.movedAll l program) = Stmt.movedAll l (resolve program) :=
  Stmt.resolveAll_moved l [] program

/-- The same reports in the same order, each on its moved token. -/
theorem check_moved (program : List (Stmt ρ)) :
    check (Stmt.movedAll l program) = (check program).map (ScopeReport.moved l) :=
  Stmt.checkAll_moved l .top [] program

end Scriptlet

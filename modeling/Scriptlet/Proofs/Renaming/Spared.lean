import Scriptlet.Proofs.Renaming.Accepted
import Scriptlet.Proofs.Renaming.Declarations

/-! What a renaming needs of a program it needs, and finds, in all evaluations of the program. -/
namespace Scriptlet

namespace Task

/-- The names in the piece of the program. -/
def names : Task → List String
  | expr _ _ e _ => e.names
  | exprs _ _ es _ => Expr.namesIn es
  | call .. => []
  | stmt _ _ s _ => s.names
  | stmts _ _ ss _ | program _ _ ss _ => Stmt.namesIn ss
  | rounds _ _ condition body none _ => condition.names ++ body.names
  | rounds _ _ condition body (some step) _ => condition.names ++ (body.names ++ step.names)
  | doRounds _ _ body condition _ => body.names ++ condition.names
  | arms _ _ _ as _ => as.names

/-- The local declarations in the piece of the program. -/
def locals (p : Place) : Task → List Declaration
  | expr .. | exprs .. | call .. => []
  | stmt _ _ s _ => s.locals p
  | stmts _ _ ss _ | program _ _ ss _ => Stmt.localsIn p ss
  | rounds _ _ _ body none _ => body.locals (.child 1 :: p)
  | rounds _ _ _ body (some step) _ => body.locals (.child 1 :: p) ++ step.locals (.child 2 :: p)
  | doRounds _ _ body _ _ => body.locals (.child 0 :: p)
  | arms _ _ _ as _ => as.locals p

theorem Inside.names_subset {path : Place} {t t' : Task} (hin : t.Inside path t') {y : String}
    (hy : y ∈ t'.names) : y ∈ t.names := by
  cases hin with
  | call => cases hy
  | grouping | unary | block | doLoop | expression | print | give | loop | loopStep | nextRound
  | nextStep | doRound | otherwise => exact hy
  | assign | initializer => exact List.mem_cons_of_mem _ hy
  | condition | left | callee | argument | ifCondition | elseCondition | subject | first
  | armCondition | topFirst | doBody => exact List.mem_append_left _ hy
  | right | arguments | moreArguments | ifThen | arms | others | topOthers | doCondition =>
    exact List.mem_append_right _ hy
  | yes | thenBranch | armBody => exact List.mem_append_right _ (List.mem_append_left _ hy)
  | no | elseBranch | step | nextArm =>
    exact List.mem_append_right _ (List.mem_append_right _ hy)
  | @loopCondition _ _ _ _ step => cases step <;> exact List.mem_append_left _ hy
  | @loopBody _ _ _ _ step =>
    cases step with
    | none => exact List.mem_append_right _ hy
    | some step => exact List.mem_append_right _ (List.mem_append_left _ hy)

theorem Inside.locals_subset {p path : Place} {t t' : Task} (hin : t.Inside path t')
    {d : Declaration} (hd : d ∈ t'.locals (path ++ p)) : d ∈ t.locals p := by
  cases hin with
  | call | grouping | unary | assign | initializer | condition | left | callee | argument
  | ifCondition | elseCondition | subject | right | arguments | moreArguments | expression | print
  | give | yes | no | loopCondition | doCondition | armCondition => cases hd
  | block | doLoop | loop | loopStep | nextRound | nextStep | doRound | otherwise | ifThen | arms
  | doBody => exact hd
  | first | topFirst | thenBranch | armBody => exact List.mem_append_left _ hd
  | others | topOthers | elseBranch | step | nextArm => exact List.mem_append_right _ hd
  | @loopBody _ _ _ _ step =>
    cases step with
    | none => exact hd
    | some step => exact List.mem_append_left _ hd

/-- The new name does not occur in the piece, and no function in it is called by the old name in the
scope of the renaming. -/
structure Spared (r : Renaming) (p : Place) (t : Task) : Prop where
  fresh : r.new ∉ t.names
  functions (d : Declaration) (hd : d ∈ t.locals p) (hf : d.isFunction = true)
    (hscope : d.scope = r.scope) : d.name.lexeme ≠ r.old

variable {r : Renaming} {p : Place}

theorem Inside.spared {path : Place} {t t' : Task} (hin : t.Inside path t') (h : t.Spared r p) :
    t'.Spared r (path ++ p) :=
  ⟨fun hy => h.fresh (hin.names_subset hy), fun d hd => h.functions d (hin.locals_subset hd)⟩

theorem Enters.spared {q : Place} {t t' d : Task} {f : Closure} {scope : Scope} {m : Machine}
    (hbody : t.Enters f scope t') (hmakes : d.Makes f m) (h : d.Spared r q) :
    t'.Spared r (.body :: q) := by
  cases hmakes with
  | intro hscope hserial hdone =>
    cases hbody with
    | intro =>
      obtain ⟨hfresh, hfunctions⟩ := h
      refine ⟨fun hy => hfresh ?_, fun d hd => hfunctions d ?_⟩
      · exact List.mem_cons_of_mem _ (List.mem_append_right _ hy)
      · exact List.mem_append_right _ (List.mem_append_right _ hd)

end Task

variable {starts : Place → Task → Prop} {r : Renaming} {p : Place} {scopes : Scopes}

theorem Located.spared (hstart : ∀ p t, starts p t → t.Spared r p) {t : Task}
    (h : Located starts p scopes t) : t.Spared r p := by
  induction h with
  | start h => exact hstart _ _ h
  | inside _ _ hin ih => exact hin.spared ih
  | body _ hbody _ hmakes _ _ ihd => exact hbody.spared hmakes ihd

mutual

theorem Expr.names_resolve {ρ : Type} : (e : Expr ρ) → (scopes : Scopes) →
    (e.resolve scopes).names = e.names
  | .assign _ value _, scopes => by simp only [Expr.resolve, Expr.names, value.names_resolve]
  | .binary left _ right, scopes => by
    simp only [Expr.resolve, Expr.names, left.names_resolve, right.names_resolve]
  | .call callee _ arguments, scopes => by
    simp only [Expr.resolve, Expr.names, callee.names_resolve, Expr.namesIn_resolve arguments]
  | .conditional condition yes no, scopes => by
    simp only [Expr.resolve, Expr.names, condition.names_resolve, yes.names_resolve,
      no.names_resolve]
  | .grouping inner, scopes => inner.names_resolve scopes
  | .literal _, _ | .reference _ _, _ => rfl
  | .unary _ right, scopes => right.names_resolve scopes

theorem Expr.namesIn_resolve {ρ : Type} : (es : List (Expr ρ)) → (scopes : Scopes) →
    Expr.namesIn (Expr.resolveAll scopes es) = Expr.namesIn es
  | [], _ => rfl
  | e :: es, scopes => by
    simp only [Expr.resolveAll, Expr.namesIn, e.names_resolve, Expr.namesIn_resolve es]

end

theorem Expr.names?_resolve {ρ : Type} (value : Option (Expr ρ)) (scopes : Scopes) :
    Expr.names? (value.map (Expr.resolve scopes)) = Expr.names? value := by
  cases value with
  | none => rfl
  | some e => exact e.names_resolve scopes

mutual

theorem Stmt.names_resolve {ρ : Type} : (s : Stmt ρ) → (scopes : Scopes) →
    (s.resolve scopes).names = s.names
  | .block body, scopes => Stmt.namesIn_resolve body _
  | .jump _ _, _ => rfl
  | .doLoop body condition, scopes => by
    simp only [Stmt.resolve, Stmt.names, body.names_resolve, condition.names_resolve]
  | .expression value, scopes | .print value, scopes => value.names_resolve scopes
  | .function _ _ body, scopes => by
    simp only [Stmt.resolve, Stmt.names, Stmt.namesIn_resolve body]
  | .ifThen condition body, scopes | .loop condition body, scopes => by
    simp only [Stmt.resolve, Stmt.names, condition.names_resolve, body.names_resolve]
  | .ifElse condition first second, scopes | .loopStep condition first second, scopes => by
    simp only [Stmt.resolve, Stmt.names, condition.names_resolve, first.names_resolve,
      second.names_resolve]
  | .give _ value, scopes => Expr.names?_resolve value scopes
  | .switch subject arms, scopes => by
    simp only [Stmt.resolve, Stmt.names, subject.names_resolve, arms.names_resolve]
  | .var _ init, scopes => by simp only [Stmt.resolve, Stmt.names, Expr.names?_resolve init]

theorem Stmt.namesIn_resolve {ρ : Type} : (ss : List (Stmt ρ)) → (scopes : Scopes) →
    Stmt.namesIn (Stmt.resolveAll scopes ss) = Stmt.namesIn ss
  | [], _ => rfl
  | s :: ss, scopes => by
    simp only [Stmt.resolveAll, Stmt.namesIn, s.names_resolve, Stmt.namesIn_resolve ss]

theorem Arms.names_resolve {ρ : Type} : (as : Arms ρ) → (scopes : Scopes) →
    (as.resolve scopes).names = as.names
  | .done, _ => rfl
  | .otherwise body, scopes => body.names_resolve scopes
  | .case condition body rest, scopes => by
    simp only [Arms.resolve, Arms.names, condition.names_resolve, body.names_resolve,
      rest.names_resolve]

end

end Scriptlet

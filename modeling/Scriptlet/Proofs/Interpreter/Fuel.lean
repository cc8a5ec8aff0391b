import Scriptlet.Proofs.Interpreter.Preserved

/-! What more fuel does. A run that came to an end is the same with more of it, and one that was cut
short goes on from where it was. -/
namespace Scriptlet

/-- The same run with more fuel. -/
inductive Course.Extends {α : Type} : Course α → Course α → Prop where
  | same (r : Course α) : Extends r r
  | cut {s : Interpreter} {r : Course α}
    (h : s.machine.printed.toList <+: r.state.machine.printed.toList) : Extends (.cut s) r

/-- The same step with more fuel. -/
def Step.Extends {α : Type} (t t' : Step α) : Prop := ∀ s, (t.run s).Extends (t'.run s)

namespace Step.Extends

variable {α β : Type} {t t' : Step α}

theorem refl (t : Step α) : t.Extends t := fun s => .same (t.run s)

theorem cut (t : Step α) : Step.cut.Extends t := fun s => .cut (t.later s).printed

theorem bind {f f' : α → Step β} (ht : t.Extends t') (hf : ∀ a, (f a).Extends (f' a)) :
    (t.bind f).Extends (t'.bind f') := by
  intro s
  have hrun := ht s
  rw [run_bind, run_bind]
  generalize t.run s = r at hrun
  generalize t'.run s = r' at hrun
  cases hrun with
  | same => cases r with
    | done a s' => exact hf a s'
    | stopped | cut => exact .same _
  | cut h =>
    refine .cut (h.trans ?_)
    cases r' with
    | done a s' => exact ((f' a).later s').printed
    | stopped | cut => exact List.prefix_refl _

theorem ite {c : Prop} [Decidable c] {u u' : Step α} (ht : t.Extends t') (hu : u.Extends u') :
    (if c then t else u).Extends (if c then t' else u') := by
  split
  · exact ht
  · exact hu

theorem guard {k : Stack} {f f' : Stack → Step α} (hf : (f k).Extends (f' k)) :
    (Step.guard k f).Extends (Step.guard k f') := by
  unfold Step.guard
  split
  · exact .refl _
  · exact hf

theorem within (scope : Scope) (ht : t.Extends t') :
    (Step.within scope t).Extends (Step.within scope t') := by
  intro s
  have hrun := ht { s with scope }
  rw [run_within, run_within]
  generalize t.run { s with scope } = r at hrun
  generalize t'.run { s with scope } = r' at hrun
  cases hrun with
  | same => exact .same _
  | cut h =>
    refine .cut ?_
    rw [Course.state_back]
    exact h

end Step.Extends

/-- With more fuel, all evaluations are extended. -/
structure ExtendingEval (n l : Nat) : Prop where
  eval (k : Stack) (e : Expr Address) :
    (Interpreter.eval n k e).Extends (Interpreter.eval l k e)
  evalAll (k : Stack) (es : List (Expr Address)) :
    (Interpreter.evalAll n k es).Extends (Interpreter.evalAll l k es)
  call (k : Stack) (paren : Token) (f : Callee) (vs : List Value) :
    (Interpreter.call n k paren f vs).Extends (Interpreter.call l k paren f vs)
  exec (k : Stack) (st : Stmt Address) :
    (Interpreter.exec n k st).Extends (Interpreter.exec l k st)
  execAll (k : Stack) (ss : List (Stmt Address)) :
    (Interpreter.execAll n k ss).Extends (Interpreter.execAll l k ss)
  execLoop (k : Stack) (condition : Expr Address) (body : Stmt Address)
    (step : Option (Stmt Address)) :
    (Interpreter.execLoop n k condition body step).Extends
      (Interpreter.execLoop l k condition body step)
  execDo (k : Stack) (body : Stmt Address) (condition : Expr Address) :
    (Interpreter.execDo n k body condition).Extends (Interpreter.execDo l k body condition)
  execArms (k : Stack) (subject : Value) (as : Arms Address) :
    (Interpreter.execArms n k subject as).Extends (Interpreter.execArms l k subject as)

variable {n l : Nat}

theorem extends_eval_succ (ih : ExtendingEval n l) (k : Stack) (e : Expr Address) :
    (Interpreter.eval (n + 1) k e).Extends (Interpreter.eval (l + 1) k e) := by
  rw [Interpreter.eval, Interpreter.eval]
  refine .guard ?_
  generalize k.take treeFrames = k
  cases e with
  | literal | reference => exact .refl _
  | grouping inner => exact ih.eval k inner
  | assign name value address => exact (ih.eval k value).bind fun _ => .refl _
  | unary operator right => exact (ih.eval k right).bind fun _ => .refl _
  | conditional condition yes no =>
    exact (ih.eval k condition).bind fun _ => .ite (ih.eval k yes) (ih.eval k no)
  | binary left operator right =>
    refine (ih.eval k left).bind fun l => ?_
    split
    · exact .ite (ih.eval k right) (.refl _)
    · exact .ite (.refl _) (ih.eval k right)
    · exact (ih.eval k right).bind fun _ => .refl _
  | call callee paren arguments =>
    refine (ih.eval k callee).bind fun v => ?_
    cases Callee.ofValue? v with
    | none => exact .refl _
    | some f => exact (ih.evalAll k arguments).bind fun vs => ih.call k paren f vs

theorem extends_call_succ (ih : ExtendingEval n l) (k : Stack) (paren : Token) (f : Callee)
    (vs : List Value) :
    (Interpreter.call (n + 1) k paren f vs).Extends (Interpreter.call (l + 1) k paren f vs) := by
  unfold Interpreter.call
  refine .ite (.refl _) (.guard ?_)
  cases f with
  | native f => exact .refl _
  | closure f =>
    exact (Step.Extends.refl _).bind fun scope => (Step.Extends.refl _).bind fun _ =>
      ((ih.execAll _ f.body).within scope).bind fun _ => .refl _

theorem extends_exec_succ (ih : ExtendingEval n l) (k : Stack) (st : Stmt Address) :
    (Interpreter.exec (n + 1) k st).Extends (Interpreter.exec (l + 1) k st) := by
  rw [Interpreter.exec, Interpreter.exec]
  refine .guard ?_
  generalize k.take treeFrames = k
  cases st with
  | block body =>
    exact (Step.Extends.refl _).bind fun outer => (Step.Extends.refl _).bind fun inner =>
      (ih.execAll _ body).within inner
  | jump | function => exact .refl _
  | doLoop body condition => exact ih.execDo k body condition
  | expression value | print value => exact (ih.eval k value).bind fun _ => .refl _
  | ifThen condition yes =>
    exact (ih.eval k condition).bind fun _ => .ite (ih.exec k yes) (.refl _)
  | ifElse condition yes no =>
    exact (ih.eval k condition).bind fun _ => .ite (ih.exec k yes) (ih.exec k no)
  | give keyword value => cases value with
    | none => exact .refl _
    | some value => exact (ih.eval k value).bind fun _ => .refl _
  | switch subject arms => exact (ih.eval k subject).bind fun v => ih.execArms k v arms
  | var name init => cases init with
    | none => exact .refl _
    | some init => exact (ih.eval k init).bind fun _ => .refl _
  | loop condition body => exact ih.execLoop k condition body none
  | loopStep condition body step => exact ih.execLoop k condition body (some step)

theorem extends_execLoop_succ (ih : ExtendingEval n l) (k : Stack) (condition : Expr Address)
    (body : Stmt Address) (step : Option (Stmt Address)) :
    (Interpreter.execLoop (n + 1) k condition body step).Extends
      (Interpreter.execLoop (l + 1) k condition body step) := by
  simp only [Interpreter.execLoop]
  refine (ih.eval k condition).bind fun v => .ite ?_ (.refl _)
  refine (ih.exec k body).bind fun flow => ?_
  have hagain (step : Option (Stmt Address)) := ih.execLoop k condition body step
  rcases flow with _ | (_ | _) | v
  · cases step with
    | none => exact hagain none
    | some st => exact (ih.exec k st).bind fun _ => hagain (some st)
  · exact .refl _
  · cases step with
    | none => exact hagain none
    | some st => exact (ih.exec k st).bind fun _ => hagain (some st)
  · exact .refl _

theorem extends_execDo_succ (ih : ExtendingEval n l) (k : Stack) (body : Stmt Address)
    (condition : Expr Address) :
    (Interpreter.execDo (n + 1) k body condition).Extends
      (Interpreter.execDo (l + 1) k body condition) := by
  simp only [Interpreter.execDo]
  refine (ih.exec k body).bind fun flow => ?_
  have hnext : ((Interpreter.eval n k condition).bind fun v =>
      if v.isTruthy then Interpreter.execDo n k body condition else .pure .normal).Extends
      ((Interpreter.eval l k condition).bind fun v =>
        if v.isTruthy then Interpreter.execDo l k body condition else .pure .normal) :=
    (ih.eval k condition).bind fun _ => .ite (ih.execDo k body condition) (.refl _)
  rcases flow with _ | (_ | _) | v
  · exact hnext
  · exact .refl _
  · exact hnext
  · exact .refl _

theorem extendingEval (h : n ≤ l) : ExtendingEval n l := by
  induction n generalizing l with
  | zero => constructor <;> intros <;> exact .cut _
  | succ n ih => cases l with
    | zero => cases h
    | succ l =>
      replace ih := ih (Nat.le_of_succ_le_succ h)
      refine ⟨extends_eval_succ ih, fun k es => ?_, extends_call_succ ih, extends_exec_succ ih,
        fun k ss => ?_, extends_execLoop_succ ih, extends_execDo_succ ih, fun k subject as => ?_⟩
      · cases es with
        | nil => exact .refl _
        | cons e es => exact (ih.eval k e).bind fun _ => (ih.evalAll k es).bind fun _ => .refl _
      · cases ss with
        | nil => exact .refl _
        | cons s ss =>
          simp only [Interpreter.execAll]
          refine (ih.exec k s).bind fun flow => ?_
          cases flow with
          | normal => exact ih.execAll k ss
          | jump | give => exact .refl _
      · cases as with
        | done => exact .refl _
        | otherwise body => exact ih.exec k body
        | case condition body rest =>
          exact (ih.eval k condition).bind fun _ =>
            .ite (ih.exec k body) (ih.execArms k subject rest)

theorem extends_execEach (h : n ≤ l) (k : Stack) (ss : List (Stmt Address)) :
    (Interpreter.execEach n k ss).Extends (Interpreter.execEach l k ss) := by
  induction ss with
  | nil => exact .refl _
  | cons s ss ih => exact ((extendingEval h).exec k s).bind fun _ => ih

end Scriptlet

import Scriptlet.Proofs.Interpreter.Run
import Scriptlet.Session

/-! The interpreter that keeps its scope in a variable does what evaluation in a given scope
does. -/
namespace Scriptlet

/-- The step does the same in the scope that the interpreter is in. -/
def Step.Follows {α : Type} (t : Step α) (o : Scope → Machine → Outcome α) : Prop :=
  ∀ s, s.globals = Machine.globals → (t.run s).outcome = o s.scope s.machine

namespace Step.Follows

variable {α β : Type} {t : Step α} {o : Scope → Machine → Outcome α}

theorem pure (a : α) : (Step.pure a).Follows fun _ m => .done a m := fun _ _ => rfl

theorem stop (why : Stop) : (Step.stop why : Step α).Follows fun _ m => .stopped why m :=
  fun _ _ => rfl

theorem cut : (Step.cut : Step α).Follows fun _ m => .outOfFuel m := fun _ _ => rfl

theorem bind {f : α → Step β} {g : α → Scope → Machine → Outcome β} (ht : t.Follows o)
    (hf : ∀ a, (f a).Follows (g a)) :
    (t.bind f).Follows fun scope m => (o scope m).bind fun a m => g a scope m := by
  intro s hs
  have hlater := t.later s
  have ht := ht s hs
  rw [run_bind]
  change _ = (o s.scope s.machine).bind _
  rw [← ht]
  cases hrun : t.run s with
  | done a s' =>
    rw [hrun] at hlater
    have hnext := hf a s' (hlater.globals.trans hs)
    rw [show s'.scope = s.scope from hlater.scope] at hnext
    exact hnext
  | stopped why s' | cut s' => rfl

theorem ite {c : Prop} [Decidable c] {t' : Step α} {o' : Scope → Machine → Outcome α}
    (ht : t.Follows o) (ht' : t'.Follows o') :
    (if c then t else t').Follows fun scope m => if c then o scope m else o' scope m := by
  intro s hs
  by_cases hc : c
  · simp only [hc, if_true]
    exact ht s hs
  · simp only [hc, if_false]
    exact ht' s hs

theorem guard {k : Stack} {f : Stack → Step α} {g : Context → Machine → Outcome α}
    (hf : (f k).Follows fun scope m => g ⟨scope, k⟩ m) :
    (Step.guard k f).Follows fun scope m => Context.guard ⟨scope, k⟩ m fun c => g c m := by
  intro s hs
  cases hk : k.overflow? with
  | some paren =>
    simp only [Step.guard, Context.guard, hk]
    rfl
  | none =>
    simp only [Step.guard, Context.guard, hk]
    exact hf s hs

theorem lift {o : Interpreter → Outcome α} {h : ∀ s, (o s).Quiet s.machine}
    {o' : Scope → Machine → Outcome α}
    (ho : ∀ s, s.globals = Machine.globals → o s = o' s.scope s.machine) :
    (Step.lift o h).Follows o' := by
  intro s hs
  rw [run_lift, ← ho s hs]
  cases o s <;> rfl

theorem ofExcept (e : Except Stop α) :
    (Step.ofExcept e).Follows fun _ m => .ofExcept m e := lift fun _ _ => rfl

theorem read (k : Stack) (name : Token) (address : Address) :
    (Step.read name address).Follows fun scope m => m.read ⟨scope, k⟩ name address := by
  refine lift fun s hs => ?_
  cases address with
  | global => rw [Interpreter.find, hs, Machine.read]
  | up d => rfl

theorem write (k : Stack) (name : Token) (v : Value) (address : Address) :
    (Step.write name v address).Follows
      fun scope m => m.write ⟨scope, k⟩ name v address := by
  refine lift fun s hs => ?_
  cases address with
  | global => rw [Interpreter.assign, hs, Machine.write]
  | up d => rfl

theorem define (name : Token) (v : Value) :
    (Step.define name v).Follows fun scope m => m.define scope name v := lift fun _ _ => rfl

/-- To go to a scope and to come back is to be given the scope. -/
theorem within (ht : t.Follows o) (scope : Scope) :
    (Step.within scope t).Follows fun _ m => o scope m := by
  intro s hs
  have ht := ht { s with scope } hs
  rw [run_within]
  cases hrun : t.run { s with scope } <;> rw [hrun] at ht <;> exact ht

theorem new (outer : Scope) :
    (Step.new outer).Follows fun _ m => .done (m.enter outer).1 (m.enter outer).2 :=
  fun _ _ => rfl

end Step.Follows

/-- With this much fuel all evaluations are the same. -/
structure FollowingEval (n : Nat) : Prop where
  eval (k : Stack) (e : Expr Address) :
    (Interpreter.eval n k e).Follows fun scope m => eval n ⟨scope, k⟩ e m
  evalAll (k : Stack) (es : List (Expr Address)) :
    (Interpreter.evalAll n k es).Follows fun scope m => evalAll n ⟨scope, k⟩ es m
  call (k : Stack) (paren : Token) (f : Callee) (vs : List Value) :
    (Interpreter.call n k paren f vs).Follows
      fun scope m => call n ⟨scope, k⟩ paren f vs m
  exec (k : Stack) (st : Stmt Address) :
    (Interpreter.exec n k st).Follows fun scope m => exec n ⟨scope, k⟩ st m
  execAll (k : Stack) (ss : List (Stmt Address)) :
    (Interpreter.execAll n k ss).Follows fun scope m => execAll n ⟨scope, k⟩ ss m
  execLoop (k : Stack) (condition : Expr Address) (body : Stmt Address)
    (step : Option (Stmt Address)) :
    (Interpreter.execLoop n k condition body step).Follows
      fun scope m => execLoop n ⟨scope, k⟩ condition body step m
  execDo (k : Stack) (body : Stmt Address) (condition : Expr Address) :
    (Interpreter.execDo n k body condition).Follows
      fun scope m => execDo n ⟨scope, k⟩ body condition m
  execArms (k : Stack) (subject : Value) (as : Arms Address) :
    (Interpreter.execArms n k subject as).Follows
      fun scope m => execArms n ⟨scope, k⟩ subject as m

open Step

variable {n : Nat}

theorem follows_eval_succ (ih : FollowingEval n) (k : Stack) (e : Expr Address) :
    (Interpreter.eval (n + 1) k e).Follows
      fun scope m => eval (n + 1) ⟨scope, k⟩ e m := by
  rw [Interpreter.eval]
  simp only [Scriptlet.eval]
  refine Follows.guard ?_
  generalize k.take treeFrames = k
  cases e with
  | literal value => exact .pure _
  | reference name address => exact .read k name address
  | grouping inner => exact ih.eval k inner
  | assign name value address =>
    exact (ih.eval k value).bind fun v => .write k name v address
  | unary operator right => exact (ih.eval k right).bind fun v => .ofExcept _
  | conditional condition yes no =>
    exact (ih.eval k condition).bind fun v =>
      .ite (ih.eval k yes) (ih.eval k no)
  | binary left operator right =>
    refine (ih.eval k left).bind fun l => ?_
    by_cases hand : operator.kind = .and
    · simp only [hand]
      exact .ite (ih.eval k right) (.pure l)
    · by_cases hor : operator.kind = .or
      · simp only [hor]
        exact .ite (.pure l) (ih.eval k right)
      · simp only
        exact (ih.eval k right).bind fun r => .ofExcept _
  | call callee paren arguments =>
    refine (ih.eval k callee).bind fun v => ?_
    cases Callee.ofValue? v with
    | none => exact .stop _
    | some f => exact (ih.evalAll k arguments).bind fun vs => ih.call k paren f vs

theorem follows_call_succ (ih : FollowingEval n) (k : Stack) (paren : Token)
    (f : Callee) (vs : List Value) :
    (Interpreter.call (n + 1) k paren f vs).Follows
      fun scope m => call (n + 1) ⟨scope, k⟩ paren f vs m := by
  unfold Interpreter.call Scriptlet.call
  refine .ite (.stop _) (.guard ?_)
  cases f with
  | native f => exact .lift fun _ _ => rfl
  | closure f =>
    have hparams (scope : Scope) : (Step.defineAll scope f.params vs).Follows
        fun _ m => Machine.defineAll scope f.params vs m := .lift fun _ _ => rfl
    exact (Follows.new f.scope).bind fun scope => (hparams scope).bind fun _ =>
      ((ih.execAll (k.enter callFrames paren) f.body).within scope).bind fun flow => .pure _

theorem follows_exec_succ (ih : FollowingEval n) (k : Stack) (st : Stmt Address) :
    (Interpreter.exec (n + 1) k st).Follows
      fun scope m => exec (n + 1) ⟨scope, k⟩ st m := by
  rw [Interpreter.exec]
  simp only [Scriptlet.exec]
  refine Follows.guard ?_
  generalize k.take treeFrames = k
  cases st with
  | block body =>
    have hscope : Step.scope.Follows fun scope m => .done scope m := fun _ _ => rfl
    exact hscope.bind fun outer => (Follows.new outer).bind fun inner =>
      (ih.execAll (k.take blockFrames) body).within inner
  | jump j keyword => exact .pure _
  | doLoop body condition => exact ih.execDo k body condition
  | expression value => exact (ih.eval k value).bind fun _ => .pure _
  | function name params body =>
    have hfunction : (Step.function name params body).Follows fun scope m =>
        { m with closures := m.closures + 1 }.define scope name
          (.closure ⟨m.closures, name, params, body, scope⟩) := .lift fun _ _ => rfl
    exact hfunction.bind fun _ => .pure _
  | ifThen condition yes =>
    exact (ih.eval k condition).bind fun v => .ite (ih.exec k yes) (.pure _)
  | ifElse condition yes no =>
    exact (ih.eval k condition).bind fun v =>
      .ite (ih.exec k yes) (ih.exec k no)
  | print value =>
    have hprint (v : Value) : (Step.print v).Follows fun _ m => .done () (m.print v) :=
      fun _ _ => rfl
    exact (ih.eval k value).bind fun v => (hprint v).bind fun _ => .pure _
  | give keyword value =>
    cases value with
    | none => exact .pure _
    | some value => exact (ih.eval k value).bind fun v => .pure _
  | switch subject arms =>
    exact (ih.eval k subject).bind fun v => ih.execArms k v arms
  | var name init =>
    cases init with
    | none => exact (Follows.define name .nil).bind fun _ => .pure _
    | some init =>
      exact (ih.eval k init).bind fun v => (Follows.define name v).bind fun _ => .pure _
  | loop condition body => exact ih.execLoop k condition body none
  | loopStep condition body step => exact ih.execLoop k condition body (some step)

theorem follows_execLoop_succ (ih : FollowingEval n) (k : Stack)
    (condition : Expr Address) (body : Stmt Address) (step : Option (Stmt Address)) :
    (Interpreter.execLoop (n + 1) k condition body step).Follows
      fun scope m => execLoop (n + 1) ⟨scope, k⟩ condition body step m := by
  simp only [Interpreter.execLoop, Scriptlet.execLoop]
  refine (ih.eval k condition).bind fun v => .ite ?_ (.pure _)
  refine (ih.exec k body).bind fun flow => ?_
  have hagain (step : Option (Stmt Address)) := ih.execLoop k condition body step
  rcases flow with _ | (_ | _) | _
  · cases step with
    | none => exact hagain none
    | some st => exact (ih.exec k st).bind fun _ => hagain (some st)
  · exact .pure _
  · cases step with
    | none => exact hagain none
    | some st => exact (ih.exec k st).bind fun _ => hagain (some st)
  · exact .pure _

theorem follows_execDo_succ (ih : FollowingEval n) (k : Stack)
    (body : Stmt Address) (condition : Expr Address) :
    (Interpreter.execDo (n + 1) k body condition).Follows
      fun scope m => execDo (n + 1) ⟨scope, k⟩ body condition m := by
  simp only [Interpreter.execDo, Scriptlet.execDo]
  refine (ih.exec k body).bind fun flow => ?_
  rcases flow with _ | (_ | _) | _
  · exact (ih.eval k condition).bind fun v =>
      .ite (ih.execDo k body condition) (.pure _)
  · exact .pure _
  · exact (ih.eval k condition).bind fun v =>
      .ite (ih.execDo k body condition) (.pure _)
  · exact .pure _

theorem followingEval (n : Nat) : FollowingEval n := by
  induction n with
  | zero => constructor <;> intros <;> exact .cut
  | succ n ih =>
    refine ⟨follows_eval_succ ih, fun k es => ?_, follows_call_succ ih,
      follows_exec_succ ih, fun k ss => ?_, follows_execLoop_succ ih,
      follows_execDo_succ ih, fun k subject as => ?_⟩
    · cases es with
      | nil => exact .pure _
      | cons e es =>
        exact (ih.eval k e).bind fun v => (ih.evalAll k es).bind fun vs => .pure _
    · cases ss with
      | nil => exact .pure _
      | cons s ss =>
        simp only [Interpreter.execAll, Scriptlet.execAll]
        refine (ih.exec k s).bind fun flow => ?_
        cases flow with
        | normal => exact ih.execAll k ss
        | jump | give => exact .pure _
    · cases as with
      | done => exact .pure _
      | otherwise body => exact ih.exec k body
      | case condition body rest =>
        exact (ih.eval k condition).bind fun v =>
          .ite (ih.exec k body) (ih.execArms k subject rest)

theorem follows_execEach (n : Nat) (k : Stack) (ss : List (Stmt Address)) :
    (Interpreter.execEach n k ss).Follows
      fun scope m => execEach n ⟨scope, k⟩ ss m := by
  induction ss with
  | nil => exact .pure _
  | cons s ss ih => exact ((followingEval n).exec k s).bind fun _ => ih

end Scriptlet

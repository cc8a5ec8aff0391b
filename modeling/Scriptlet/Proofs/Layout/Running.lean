import Scriptlet.Proofs.Layout.Values

/-! Evaluation of a moved program does what the program does, moved. What was printed before plays
no part either, nor how often the clock was read. -/
namespace Scriptlet

/-- What has been printed before, and how often the clock has been read. -/
structure Past where
  printed : Array Value
  readings : Nat

/-- Nothing has been done before. -/
def Past.none : Past := ⟨#[], 0⟩

/-- The host on which the readings from this one on are what they were. -/
def Host.delayed (k : Nat) (host : Host) : Host :=
  { host with clock := fun i => host.clock (i - k) }

variable (l : Layout) (before : Past)

def Stack.moved (k : Stack) : Stack :=
  ⟨k.host.delayed before.readings, k.taken, k.caller.map (Token.moved l)⟩

def Context.moved (c : Context) : Context := { c with stack := c.stack.moved l before }

/-- The machine that runs the moved program, when all this has been done already. -/
def Machine.moved (m : Machine) : Machine where
  store := m.store.mapped (Value.moved l)
  closures := m.closures
  readings := before.readings + m.readings
  printed := before.printed ++ m.printed.map (Value.moved l)

theorem Stack.overflow?_moved (k : Stack) :
    (k.moved l before).overflow? = k.overflow?.map (Token.moved l) := by
  unfold overflow?
  rw [apply_ite (Option.map (Token.moved l))]
  rfl

namespace Outcome

variable {α β γ δ : Type}

def moved (φ : α → β) : Outcome α → Outcome β
  | done a m => done (φ a) (m.moved l before)
  | stopped why m => stopped (why.moved l) (m.moved l before)
  | outOfFuel m => outOfFuel (m.moved l before)

variable {l before} {φ : α → β} {ψ : γ → δ}

theorem bind_moved {o : Outcome α} {o' : Outcome β} {f : α → Machine → Outcome γ}
    {g : β → Machine → Outcome δ} (ho : o' = o.moved l before φ)
    (hf : ∀ a m, g (φ a) (m.moved l before) = (f a m).moved l before ψ) :
    o'.bind g = (o.bind f).moved l before ψ := by
  subst ho
  cases o with
  | done a m => exact hf a m
  | stopped why m => rfl
  | outOfFuel m => rfl

theorem ofExcept_moved (m : Machine) (x : Except Stop α) :
    ofExcept (m.moved l before) (Stop.orMoved l φ x) = (ofExcept m x).moved l before φ := by
  cases x <;> rfl

end Outcome

variable {l before}

theorem Context.guard_moved {α β : Type} {φ : α → β} (c : Context) (m : Machine)
    {f : Context → Outcome α} {g : Context → Outcome β}
    (h : g (c.moved l before) = (f c).moved l before φ) :
    (c.moved l before).guard (m.moved l before) g = (c.guard m f).moved l before φ := by
  have hmoved : (c.moved l before).stack.overflow? = c.stack.overflow?.map (Token.moved l) :=
    c.stack.overflow?_moved l before
  cases hover : c.stack.overflow? with
  | some paren =>
    rw [hover] at hmoved
    rw [guard_of_overflow hover, guard_of_overflow hmoved]
    rfl
  | none =>
    rw [hover] at hmoved
    rwa [guard_of_room hover, guard_of_room hmoved]

namespace Machine

theorem update_moved {α β : Type} {φ : α → β} (m : Machine) (a : α)
    (x : Except Stop (Store Value)) :
    (m.moved l before).update (φ a) (Stop.orMoved l (Store.mapped (Value.moved l)) x) =
      (m.update a x).moved l before φ := by
  cases x <;> rfl

theorem define_moved (m : Machine) (scope : Scope) (name : Token) (v : Value) :
    (m.moved l before).define scope (name.moved l) (v.moved l) =
      (m.define scope name v).moved l before id := by
  unfold define
  rw [← update_moved, ← Store.define_moved]
  rfl

theorem defineAll_moved (scope : Scope) (ps : List Token) (vs : List Value) (m : Machine) :
    defineAll scope (ps.map (Token.moved l)) (vs.map (Value.moved l)) (m.moved l before) =
      (defineAll scope ps vs m).moved l before id := by
  induction ps generalizing vs m with
  | nil => rfl
  | cons p ps ih =>
    cases vs with
    | nil => rfl
    | cons v vs => exact Outcome.bind_moved (m.define_moved scope p v) fun _ m => ih vs m

theorem read_moved (m : Machine) (c : Context) (name : Token) (address : Address) :
    (m.moved l before).read (c.moved l before) (name.moved l) address =
      (m.read c name address).moved l before (Value.moved l) := by
  cases address with
  | global =>
    unfold read
    rw [← Outcome.ofExcept_moved, ← Store.get_moved]
    rfl
  | up d =>
    unfold read
    rw [← Outcome.ofExcept_moved, ← Store.getAt_moved]
    rfl

theorem write_moved (m : Machine) (c : Context) (name : Token) (v : Value) (address : Address) :
    (m.moved l before).write (c.moved l before) (name.moved l) (v.moved l) address =
      (m.write c name v address).moved l before (Value.moved l) := by
  cases address with
  | global =>
    unfold write
    rw [← update_moved, ← Store.assign_moved]
    rfl
  | up d =>
    unfold write
    rw [← update_moved, ← Store.assignAt_moved]
    rfl

theorem enter_moved (m : Machine) (outer : Scope) :
    (m.moved l before).enter outer = ((m.enter outer).1, (m.enter outer).2.moved l before) := by
  unfold enter
  simp only [moved, Store.next_mapped, Store.grow_mapped]

theorem print_moved (m : Machine) (v : Value) :
    (m.moved l before).print (v.moved l) = (m.print v).moved l before := by
  simp [print, moved]

end Machine

theorem Native.after_moved (f : Native) (m : Machine) :
    f.after (m.moved l before) = (f.after m).moved l before := by
  cases f <;> rfl

/-- What evaluation with this much fuel does on moved programs and machines. -/
structure MovingEval (l : Layout) (before : Past) (n : Nat) : Prop where
  eval (c : Context) (e : Expr Address) (m : Machine) :
    eval n (c.moved l before) (e.moved l) (m.moved l before) =
      (eval n c e m).moved l before (Value.moved l)
  evalAll (c : Context) (es : List (Expr Address)) (m : Machine) :
    evalAll n (c.moved l before) (Expr.movedAll l es) (m.moved l before) =
      (evalAll n c es m).moved l before (List.map (Value.moved l))
  call (c : Context) (paren : Token) (f : Callee) (vs : List Value) (m : Machine) :
    call n (c.moved l before) (paren.moved l) (f.moved l) (vs.map (Value.moved l))
        (m.moved l before) =
      (call n c paren f vs m).moved l before (Value.moved l)
  exec (c : Context) (st : Stmt Address) (m : Machine) :
    exec n (c.moved l before) (st.moved l) (m.moved l before) =
      (exec n c st m).moved l before (Flow.moved l)
  execAll (c : Context) (ss : List (Stmt Address)) (m : Machine) :
    execAll n (c.moved l before) (Stmt.movedAll l ss) (m.moved l before) =
      (execAll n c ss m).moved l before (Flow.moved l)
  execLoop (c : Context) (condition : Expr Address) (body : Stmt Address)
    (step : Option (Stmt Address)) (m : Machine) :
    execLoop n (c.moved l before) (condition.moved l) (body.moved l) (step.map (Stmt.moved l))
        (m.moved l before) =
      (execLoop n c condition body step m).moved l before (Flow.moved l)
  execDo (c : Context) (body : Stmt Address) (condition : Expr Address) (m : Machine) :
    execDo n (c.moved l before) (body.moved l) (condition.moved l) (m.moved l before) =
      (execDo n c body condition m).moved l before (Flow.moved l)
  execArms (c : Context) (subject : Value) (arms : Arms Address) (m : Machine) :
    execArms n (c.moved l before) (subject.moved l) (arms.moved l) (m.moved l before) =
      (execArms n c subject arms m).moved l before (Flow.moved l)

variable {n : Nat} {c : Context}

open Outcome (bind_moved)

theorem moving_eval_succ (ih : MovingEval l before n) (e : Expr Address) (m : Machine) :
    eval (n + 1) (c.moved l before) (e.moved l) (m.moved l before) =
      (eval (n + 1) c e m).moved l before (Value.moved l) := by
  rw [eval, eval]
  refine c.deeper.guard_moved m ?_
  generalize c.deeper = c
  cases e with
  | literal value => exact congrArg (Outcome.done · _) (value.value_moved l).symm
  | reference name address => exact m.read_moved c name address
  | grouping inner => exact ih.eval c inner m
  | assign name value address =>
    exact bind_moved (ih.eval c value m) fun v m => m.write_moved c name v address
  | unary operator right =>
    refine bind_moved (ih.eval c right m) fun v m => ?_
    rw [unary_moved, Outcome.ofExcept_moved]
  | conditional condition yes no =>
    refine bind_moved (ih.eval c condition m) fun v m => ?_
    rw [Value.isTruthy_moved]
    split
    · exact ih.eval c yes m
    · exact ih.eval c no m
  | binary left operator right =>
    refine bind_moved (ih.eval c left m) fun v m => ?_
    rw [Value.isTruthy_moved, Token.kind_moved]
    split
    · split
      · exact ih.eval c right m
      · rfl
    · split
      · rfl
      · exact ih.eval c right m
    · refine bind_moved (ih.eval c right m) fun w m => ?_
      rw [binary_moved, Outcome.ofExcept_moved]
  | call callee paren arguments =>
    refine bind_moved (ih.eval c callee m) fun v m => ?_
    rw [Callee.ofValue?_moved]
    cases Callee.ofValue? v with
    | none => rfl
    | some f =>
      exact bind_moved (ih.evalAll c arguments m) fun vs m => ih.call c paren f vs m

theorem moving_evalAll_succ (ih : MovingEval l before n) (es : List (Expr Address))
    (m : Machine) :
    evalAll (n + 1) (c.moved l before) (Expr.movedAll l es) (m.moved l before) =
      (evalAll (n + 1) c es m).moved l before (List.map (Value.moved l)) := by
  cases es with
  | nil => rfl
  | cons e es =>
    exact bind_moved (ih.eval c e m) fun _ m => bind_moved (ih.evalAll c es m) fun _ _ => rfl

theorem moving_call_succ (ih : MovingEval l before n) (paren : Token) (f : Callee)
    (vs : List Value) (m : Machine) :
    call (n + 1) (c.moved l before) (paren.moved l) (f.moved l) (vs.map (Value.moved l))
        (m.moved l before) =
      (call (n + 1) c paren f vs m).moved l before (Value.moved l) := by
  unfold call
  rw [Callee.arity_moved, List.length_map]
  split
  · rfl
  · refine (c.calling paren).guard_moved m ?_
    generalize c.calling paren = c
    cases f with
    | native f =>
      have hclock : (c.moved l before).stack.host.clock (m.moved l before).readings =
          c.stack.host.clock m.readings :=
        congrArg c.stack.host.clock (Nat.add_sub_cancel_left ..)
      simp only [Callee.moved, hclock, f.apply_moved, f.after_moved]
      rfl
    | closure f =>
      have henter : (m.moved l before).enter (f.moved l).scope = _ := m.enter_moved f.scope
      simp only [Callee.moved, henter]
      refine bind_moved (Machine.defineAll_moved _ f.params vs _) fun _ m => ?_
      refine bind_moved (ih.execAll (c.entering _) f.body m) fun flow m => ?_
      rw [flow.result_moved]
      rfl

theorem moving_exec_succ (ih : MovingEval l before n) (st : Stmt Address) (m : Machine) :
    exec (n + 1) (c.moved l before) (st.moved l) (m.moved l before) =
      (exec (n + 1) c st m).moved l before (Flow.moved l) := by
  rw [exec, exec]
  refine c.deeper.guard_moved m ?_
  generalize c.deeper = c
  cases st with
  | jump j keyword => rfl
  | block body =>
    have henter : (m.moved l before).enter (c.moved l before).scope = _ := m.enter_moved c.scope
    simp only [Stmt.moved, henter]
    exact ih.execAll (c.inside _) body _
  | doLoop body condition => exact ih.execDo c body condition m
  | expression value => exact bind_moved (ih.eval c value m) fun _ _ => rfl
  | function name params body =>
    let f : Closure := ⟨m.closures, name, params, body, c.scope⟩
    exact bind_moved
      (Machine.define_moved { m with closures := m.closures + 1 } c.scope name (.closure f))
      fun _ _ => rfl
  | ifThen condition body =>
    refine bind_moved (ih.eval c condition m) fun v m => ?_
    rw [Value.isTruthy_moved]
    split
    · exact ih.exec c body m
    · rfl
  | ifElse condition yes no =>
    refine bind_moved (ih.eval c condition m) fun v m => ?_
    rw [Value.isTruthy_moved]
    split
    · exact ih.exec c yes m
    · exact ih.exec c no m
  | print value =>
    refine bind_moved (ih.eval c value m) fun v m => ?_
    rw [m.print_moved]
    rfl
  | give keyword value =>
    cases value with
    | none => rfl
    | some value => exact bind_moved (ih.eval c value m) fun _ _ => rfl
  | switch subject arms =>
    exact bind_moved (ih.eval c subject m) fun v m => ih.execArms c v arms m
  | var name init =>
    cases init with
    | none => exact bind_moved (m.define_moved c.scope name .nil) fun _ _ => rfl
    | some init =>
      exact bind_moved (ih.eval c init m) fun v m =>
        bind_moved (m.define_moved c.scope name v) fun _ _ => rfl
  | loop condition body => exact ih.execLoop c condition body none m
  | loopStep condition body step => exact ih.execLoop c condition body (some step) m

theorem moving_execAll_succ (ih : MovingEval l before n) (ss : List (Stmt Address))
    (m : Machine) :
    execAll (n + 1) (c.moved l before) (Stmt.movedAll l ss) (m.moved l before) =
      (execAll (n + 1) c ss m).moved l before (Flow.moved l) := by
  cases ss with
  | nil => rfl
  | cons s ss =>
    refine bind_moved (ih.exec c s m) fun flow m => ?_
    cases flow with
    | normal => exact ih.execAll c ss m
    | jump j => rfl
    | give v => rfl

theorem moving_execLoop_succ (ih : MovingEval l before n) (condition : Expr Address)
    (body : Stmt Address) (step : Option (Stmt Address)) (m : Machine) :
    execLoop (n + 1) (c.moved l before) (condition.moved l) (body.moved l) (step.map (Stmt.moved l))
        (m.moved l before) =
      (execLoop (n + 1) c condition body step m).moved l before (Flow.moved l) := by
  refine bind_moved (ih.eval c condition m) fun v m => ?_
  rw [Value.isTruthy_moved]
  split
  · refine bind_moved (ih.exec c body m) fun flow m => ?_
    -- A round goes on in the same way whether its body ended normally or started it again.
    cases step with
    | none =>
      have hnext := ih.execLoop c condition body none m
      rcases flow with _ | ⟨_ | _⟩ | _
      · exact hnext
      · rfl
      · exact hnext
      · rfl
    | some s =>
      have hnext : ((exec n (c.moved l before) (s.moved l) (m.moved l before)).bind fun _ m =>
          execLoop n (c.moved l before) (condition.moved l) (body.moved l) (some (s.moved l)) m) =
          ((exec n c s m).bind fun _ m => execLoop n c condition body (some s) m).moved l before
            (Flow.moved l) :=
        bind_moved (ih.exec c s m) fun _ m => ih.execLoop c condition body (some s) m
      rcases flow with _ | ⟨_ | _⟩ | _
      · exact hnext
      · rfl
      · exact hnext
      · rfl
  · rfl

theorem moving_execDo_succ (ih : MovingEval l before n) (body : Stmt Address)
    (condition : Expr Address) (m : Machine) :
    execDo (n + 1) (c.moved l before) (body.moved l) (condition.moved l) (m.moved l before) =
      (execDo (n + 1) c body condition m).moved l before (Flow.moved l) := by
  refine bind_moved (ih.exec c body m) fun flow m => ?_
  have hnext : ((eval n (c.moved l before) (condition.moved l) (m.moved l before)).bind fun v m =>
      if v.isTruthy then execDo n (c.moved l before) (body.moved l) (condition.moved l) m
      else .done .normal m) =
      Outcome.moved l before (Flow.moved l) ((eval n c condition m).bind fun v m =>
        if v.isTruthy then execDo n c body condition m else .done .normal m) := by
    refine bind_moved (ih.eval c condition m) fun v m => ?_
    rw [Value.isTruthy_moved]
    split
    · exact ih.execDo c body condition m
    · rfl
  cases flow with
  | normal => exact hnext
  | give v => rfl
  | jump j =>
    cases j with
    | exit => rfl
    | again => exact hnext

theorem moving_execArms_succ (ih : MovingEval l before n) (subject : Value)
    (arms : Arms Address) (m : Machine) :
    execArms (n + 1) (c.moved l before) (subject.moved l) (arms.moved l) (m.moved l before) =
      (execArms (n + 1) c subject arms m).moved l before (Flow.moved l) := by
  cases arms with
  | done => rfl
  | otherwise body => exact ih.exec c body m
  | case condition body rest =>
    refine bind_moved (ih.eval c condition m) fun v m => ?_
    rw [Value.isEqual_moved]
    split
    · exact ih.exec c body m
    · exact ih.execArms c subject rest m

theorem movingEval (l : Layout) (before : Past) (n : Nat) : MovingEval l before n := by
  induction n with
  | zero =>
    exact ⟨fun _ _ _ => rfl, fun _ _ _ => rfl, fun _ _ _ _ _ => rfl, fun _ _ _ => rfl,
      fun _ _ _ => rfl, fun _ _ _ _ _ => rfl, fun _ _ _ _ => rfl, fun _ _ _ _ => rfl⟩
  | succ n ih =>
    exact ⟨fun _ => moving_eval_succ ih, fun _ => moving_evalAll_succ ih,
      fun _ => moving_call_succ ih, fun _ => moving_exec_succ ih, fun _ => moving_execAll_succ ih,
      fun _ => moving_execLoop_succ ih, fun _ => moving_execDo_succ ih,
      fun _ => moving_execArms_succ ih⟩

end Scriptlet

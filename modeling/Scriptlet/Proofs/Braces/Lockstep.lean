import Scriptlet.Proofs.Braces.Agreement
import Scriptlet.Proofs.Interpreter.Faithful

/-! A run of a program and the same run of the program in other scopes go together. -/
namespace Scriptlet

/-- The same flow in both runs. -/
inductive Flow.Paired (φ : List Nat) : Flow → Flow → Prop where
  | normal : Paired φ .normal .normal
  | jump (j : Jump) : Paired φ (.jump j) (.jump j)
  | give {v v' : Value} (hv : v.Paired φ v') : Paired φ (.give v) (.give v')

variable {φ : List Nat}

theorem Flow.Paired.result {flow flow' : Flow} (h : flow.Paired φ flow') :
    flow.result.Paired φ flow'.result := by
  cases h with
  | normal | jump => exact .plain fun f => by simp [Flow.result]
  | give hv => exact hv

namespace Value.Paired

variable {v v' w w' : Value}

theorem callee (h : v.Paired φ v') :
    (Callee.ofValue? v = none ∧ Callee.ofValue? v' = none) ∨
      ∃ f f', Callee.ofValue? v = some f ∧ Callee.ofValue? v' = some f' ∧
        f.value.Paired φ f'.value := by
  cases h with
  | plain h => cases v with
    | native f => exact .inr ⟨.native f, .native f, rfl, rfl, .plain h⟩
    | closure f => exact absurd rfl (h f)
    | _ => exact .inl ⟨rfl, rfl⟩
  | closure serial name params hscopes hbody hplaced hscope =>
    exact .inr ⟨.closure _, .closure _, rfl, rfl,
      .closure serial name params hscopes hbody hplaced hscope⟩

theorem unary (h : v.Paired φ v') (operator : Token) :
    Matching (Value.Paired φ) (unary operator v) (unary operator v') := by
  rw [h.alike.unary_eq]
  cases hresult : Scriptlet.unary operator v with
  | ok w => exact .ok (.plain fun f hf => unary_ne_closure (hf ▸ hresult))
  | error why => exact .error why

theorem binary (h : v.Paired φ v') (hw : w.Paired φ w') (operator : Token) :
    Matching (Value.Paired φ) (binary operator v w) (binary operator v' w') := by
  by_cases hk : operator.kind = .comma
  · rw [binary_comma hk, binary_comma hk]
    exact .ok hw
  · rw [h.alike.binary_eq hw.alike hk]
    cases hresult : Scriptlet.binary operator v w with
    | ok u => exact .ok (.plain fun f hf => hk (binary_eq_closure (hf ▸ hresult)).1)
    | error why => exact .error why

end Value.Paired

/-- Fuel for both runs. Where the first run takes one step to a statement, the second one takes
three if the statement is in braces, and four if it was the step of a loop. So the second run needs
up to four times the fuel of the first one, and never less. -/
def Side.Ample : Side → Nat → Nat → Prop
  | .first, n, k => 4 * n ≤ k
  | .second, n, k => k ≤ n

/-- The body and the step of a loop in both runs. -/
inductive Rounds : Stmt Unit → Option (Stmt Unit) → Stmt Unit → Option (Stmt Unit) → Prop where
  | stepless {body body' : Stmt Unit} (hbody : body.Recast body') : Rounds body none body' none
  | stepped {body body' step step' : Stmt Unit} (hbody : body.Recast body')
    (hstep : step.Recast step') (hplaced : step.Placed false) :
    Rounds body (some step) body' (some step')
  | stepInside {body body' : Stmt Unit} (hbody : body.Recast body')
    (hagain : body.escapes (.jump .again) = false) (step : Expr Unit) :
    Rounds body (some (.expression step)) (.block [body', .expression step]) none

/-- With so much fuel, all evaluations agree. -/
structure Lockstep (side : Side) (n k : Nat) : Prop where
  eval {stack stack' : Stack} {φ : List Nat} {flags : List Bool} {scopes scopes' : Scopes}
    (hstack : stack.Below stack') (e : Expr Unit) (h : scopes.Spread flags scopes') :
    (Interpreter.eval n stack (e.resolve scopes)).Agree side φ flags Value.Paired
      (Interpreter.eval k stack' (e.resolve scopes'))
  evalAll {stack stack' : Stack} {φ : List Nat} {flags : List Bool} {scopes scopes' : Scopes}
    (hstack : stack.Below stack') (es : List (Expr Unit)) (h : scopes.Spread flags scopes') :
    (Interpreter.evalAll n stack (Expr.resolveAll scopes es)).Agree side φ flags
      (fun φ' => List.Forall₂ (Value.Paired φ'))
      (Interpreter.evalAll k stack' (Expr.resolveAll scopes' es))
  call {stack stack' : Stack} {φ : List Nat} {flags : List Bool} (hstack : stack.Below stack')
    (paren : Token) {f f' : Callee} {vs vs' : List Value} (hf : f.value.Paired φ f'.value)
    (hvs : List.Forall₂ (Value.Paired φ) vs vs') :
    (Interpreter.call n stack paren f vs).Agree side φ flags Value.Paired
      (Interpreter.call k stack' paren f' vs')
  exec {stack stack' : Stack} {φ : List Nat} {flags : List Bool} {scopes scopes' : Scopes}
    {st st' : Stmt Unit} {listed : Bool} (hstack : stack.Below stack') (hst : st.Recast st')
    (hplaced : st.Placed listed) (h : scopes.Spread flags scopes')
    (hhead : st.declares = true → flags.head? ≠ some true) :
    (Interpreter.exec n stack (st.resolve scopes)).Agree side φ flags Flow.Paired
      (Interpreter.exec k stack' (st'.resolve scopes'))
  execAll {stack stack' : Stack} {φ : List Nat} {flags : List Bool} {scopes scopes' : Scopes}
    {ss ss' : List (Stmt Unit)} (hstack : stack.Below stack') (hss : Stmt.AllRecast ss ss')
    (hplaced : Stmt.AllPlaced ss) (h : scopes.Spread flags scopes')
    (hhead : flags.head? ≠ some true) :
    (Interpreter.execAll n stack (Stmt.resolveAll scopes ss)).Agree side φ flags Flow.Paired
      (Interpreter.execAll k stack' (Stmt.resolveAll scopes' ss'))
  execLoop {stack stack' : Stack} {φ : List Nat} {flags : List Bool} {scopes scopes' : Scopes}
    {body body' : Stmt Unit} {step step' : Option (Stmt Unit)} (hstack : stack.Below stack')
    (condition : Expr Unit) (hrounds : Rounds body step body' step') (hplaced : body.Placed false)
    (h : scopes.Spread flags scopes') :
    (Interpreter.execLoop n stack (condition.resolve scopes) (body.resolve scopes)
      (step.map (Stmt.resolve scopes))).Agree side φ flags Flow.Paired
      (Interpreter.execLoop k stack' (condition.resolve scopes') (body'.resolve scopes')
        (step'.map (Stmt.resolve scopes')))
  execDo {stack stack' : Stack} {φ : List Nat} {flags : List Bool} {scopes scopes' : Scopes}
    {body body' : Stmt Unit} (hstack : stack.Below stack') (hbody : body.Recast body')
    (hplaced : body.Placed false) (condition : Expr Unit) (h : scopes.Spread flags scopes') :
    (Interpreter.execDo n stack (body.resolve scopes) (condition.resolve scopes)).Agree side φ
      flags Flow.Paired
      (Interpreter.execDo k stack' (body'.resolve scopes') (condition.resolve scopes'))
  execArms {stack stack' : Stack} {φ : List Nat} {flags : List Bool} {scopes scopes' : Scopes}
    {as as' : Arms Unit} {subject subject' : Value} (hstack : stack.Below stack')
    (hsubject : subject.Paired φ subject') (has : as.Recast as') (hplaced : as.Placed)
    (h : scopes.Spread flags scopes') :
    (Interpreter.execArms n stack subject (as.resolve scopes)).Agree side φ flags Flow.Paired
      (Interpreter.execArms k stack' subject' (as'.resolve scopes'))

variable {side : Side} {n k : Nat} {stack stack' : Stack} {flags : List Bool}
  {scopes scopes' : Scopes}

theorem lockstep_eval_succ (ih : Lockstep side n k) (hstack : stack.Below stack')
    (e : Expr Unit) (h : scopes.Spread flags scopes') :
    (Interpreter.eval (n + 1) stack (e.resolve scopes)).Agree side φ flags Value.Paired
      (Interpreter.eval (k + 1) stack' (e.resolve scopes')) := by
  rw [Interpreter.eval, Interpreter.eval]
  refine .guard (hstack.take treeFrames) ?_
  replace hstack := hstack.take treeFrames
  cases e with
  | literal value =>
    refine .pure fun _ _ => .plain fun f => ?_
    cases value <;> simp [Literal.value]
  | reference name => exact .read h name
  | grouping inner => exact ih.eval hstack inner h
  | assign name value =>
    exact (ih.eval hstack value h).bind fun _ _ _ _ hv => .write h name hv
  | unary operator right =>
    exact (ih.eval hstack right h).bind fun _ _ _ _ hv => .ofExcept (hv.unary operator)
  | conditional condition yes no =>
    refine (ih.eval hstack condition h).bind fun φ₁ v v' _ hv => ?_
    rw [hv.alike.isTruthy_eq]
    exact .ite (ih.eval hstack yes h) (ih.eval hstack no h)
  | binary left operator right =>
    refine (ih.eval hstack left h).bind fun φ₁ l l' _ hl => ?_
    rw [hl.alike.isTruthy_eq]
    have hpure : (Step.pure l).Agree side φ₁ flags Value.Paired (Step.pure l') :=
      .pure fun _ hφ => hl.mono hφ
    by_cases hand : operator.kind = .and
    · simp only [hand]
      exact .ite (ih.eval hstack right h) hpure
    · by_cases hor : operator.kind = .or
      · simp only [hor]
        exact .ite hpure (ih.eval hstack right h)
      · simp only
        exact (ih.eval hstack right h).bind fun _ _ _ hφ hr =>
          .ofExcept ((hl.mono hφ).binary hr operator)
  | call callee paren arguments =>
    refine (ih.eval hstack callee h).bind fun φ₁ v v' _ hv => ?_
    rcases hv.callee with ⟨hnone, hnone'⟩ | ⟨f, f', hsome, hsome', hf⟩
    · rw [hnone, hnone']
      exact .stop _
    · rw [hsome, hsome']
      exact (ih.evalAll hstack arguments h).bind fun _ _ _ hφ hvs =>
        ih.call hstack paren (hf.mono hφ) hvs

/-- A body runs in a new scope inside that of its closure. -/
theorem lockstep_closure (ih : Lockstep side n k) (hstack : stack.Below stack') (paren : Token)
    {f f' : Closure} {vs vs' : List Value} (hf : (Value.closure f).Paired φ (.closure f'))
    (hvs : List.Forall₂ (Value.Paired φ) vs vs') :
    (Interpreter.call (n + 1) stack paren (.closure f) vs).Agree side φ flags Value.Paired
      (Interpreter.call (k + 1) stack' paren (.closure f') vs') := by
  cases hf with
  | plain h => exact absurd rfl (h f)
  | closure serial name params hscopes hbody hplaced hscope =>
    simp only [Interpreter.call, Callee.arity, hvs.length_eq]
    refine .ite (.stop _) (.guard (hstack.enter callFrames paren) ?_)
    refine (Step.Agree.new hscope).bind fun φ₁ inner inner' hφ₁ hinner => ?_
    have hvs₁ : List.Forall₂ (Value.Paired φ₁) vs vs' := hvs.imp fun _ _ hv => hv.mono hφ₁
    refine (Step.Agree.defineAll hinner (by simp) params hvs₁).bind fun φ₂ _ _ hφ₂ _ => ?_
    have hrun := ih.execAll (φ := φ₂) (hstack.enter callFrames paren) hbody hplaced hscopes
      (by simp)
    exact (hrun.within (hinner.mono hφ₂)).bind fun φ₃ flow flow' _ hflow =>
      .pure fun _ hφ => hflow.result.mono hφ

theorem lockstep_call_succ (ih : Lockstep side n k) (hstack : stack.Below stack') (paren : Token)
    {f f' : Callee} {vs vs' : List Value} (hf : f.value.Paired φ f'.value)
    (hvs : List.Forall₂ (Value.Paired φ) vs vs') :
    (Interpreter.call (n + 1) stack paren f vs).Agree side φ flags Value.Paired
      (Interpreter.call (k + 1) stack' paren f' vs') := by
  cases f with
  | closure f => cases f' with
    | closure f' => exact lockstep_closure ih hstack paren hf hvs
    | native => cases hf
  | native f => cases f' with
    | closure => cases hf
    | native f' =>
      have hf : (Value.native f).Paired φ (.native f') := hf
      obtain rfl : f = f' := by cases hf with | plain => rfl
      simp only [Interpreter.call, Callee.arity, hvs.length_eq]
      refine .ite (.stop _) (.guard (hstack.enter callFrames paren) ?_)
      exact .native (hstack.enter callFrames paren) f hvs

/-- A statement that has no braces of its own more. -/
theorem lockstep_exec_inside (ih : Lockstep side n k) {st st' : Stmt Unit}
    {listed : Bool} (hstack : stack.Below stack') (hst : st.RecastInside st')
    (hplaced : st.Placed listed) (h : scopes.Spread flags scopes')
    (hhead : st.declares = true → flags.head? ≠ some true) :
    (Interpreter.exec (n + 1) stack (st.resolve scopes)).Agree side φ flags Flow.Paired
      (Interpreter.exec (k + 1) stack' (st'.resolve scopes')) := by
  rw [Interpreter.exec, Interpreter.exec]
  refine .guard (hstack.take treeFrames) ?_
  replace hstack := hstack.take treeFrames
  have hnormal (φ : List Nat) :
      (Step.pure Flow.normal).Agree side φ flags Flow.Paired (Step.pure .normal) :=
    .pure fun _ _ => .normal
  cases hst with
  | block hbody =>
    exact Step.Agree.scope.bind fun φ₁ _ _ _ houter => (Step.Agree.new houter).bind
      fun φ₂ _ _ _ hinner =>
        (ih.execAll (hstack.take blockFrames) hbody hplaced (.same [] h)
          (by simp)).within hinner
  | jump j => exact .pure fun _ _ => .jump j
  | expression value => exact (ih.eval hstack value h).bind fun φ₁ _ _ _ _ => hnormal φ₁
  | print value =>
    exact (ih.eval hstack value h).bind fun _ _ _ _ hv =>
      (Step.Agree.print hv).bind fun φ₂ _ _ _ _ => hnormal φ₂
  | give keyword value =>
    cases value with
    | none => exact .pure fun _ _ => .give (.plain fun f => by simp)
    | some value =>
      exact (ih.eval hstack value h).bind fun _ _ _ _ hv =>
        .pure fun _ hφ => .give (hv.mono hφ)
  | var name init =>
    cases init with
    | none =>
      exact (Step.Agree.define (hhead rfl) name (.plain fun f => by simp)).bind
        fun φ₁ _ _ _ _ => hnormal φ₁
    | some init =>
      have hinit := ih.eval (φ := φ) hstack init (h.add (hhead rfl) name.lexeme false)
      exact hinit.bind fun _ _ _ _ hv =>
        (Step.Agree.define (hhead rfl) name hv).bind fun φ₂ _ _ _ _ => hnormal φ₂
  | function name params hbody =>
    have hscopes := (h.add (hhead rfl) name.lexeme true).enter params
    exact (Step.Agree.function (hhead rfl) name params hscopes hbody hplaced.2).bind
      fun φ₁ _ _ _ _ => hnormal φ₁
  | ifThen condition hyes =>
    have hplaced : Stmt.Placed false _ := hplaced
    refine (ih.eval hstack condition h).bind fun φ₁ v v' _ hv => ?_
    rw [hv.alike.isTruthy_eq]
    exact .ite (ih.exec hstack hyes hplaced h hplaced.undeclaring) (hnormal φ₁)
  | ifElse condition hyes hno =>
    obtain ⟨hfirst, hsecond⟩ := hplaced
    refine (ih.eval hstack condition h).bind fun φ₁ v v' _ hv => ?_
    rw [hv.alike.isTruthy_eq]
    exact .ite (ih.exec hstack hyes hfirst h hfirst.undeclaring)
      (ih.exec hstack hno hsecond (hyes.declare hfirst h hfirst.undeclaring)
        hsecond.undeclaring)
  | switch subject harms =>
    have hplaced : Arms.Placed _ := hplaced
    exact (ih.eval hstack subject h).bind fun _ _ _ _ hv =>
      ih.execArms hstack hv harms hplaced h
  | loop condition hbody =>
    exact ih.execLoop hstack condition (.stepless hbody) hplaced h
  | loopStep condition hbody hstep =>
    obtain ⟨hfirst, hsecond⟩ := hplaced
    have hloop := ih.execLoop (φ := φ) hstack condition
      (.stepped hbody (.inside hstep) hsecond) hfirst h
    simp only [Stmt.resolve, hfirst.declare_eq,
      (hbody.placed hfirst).declare_eq]
    exact hloop
  | stepInside condition hbody hagain step =>
    have hloop := ih.execLoop (φ := φ) hstack condition (.stepInside hbody hagain step) hplaced.1
      h
    simp only [Stmt.resolve, hplaced.1.declare_eq]
    exact hloop
  | doLoop hbody condition =>
    have hplaced : Stmt.Placed false _ := hplaced
    have hloop := ih.execDo (φ := φ) hstack hbody hplaced condition h
    simp only [Stmt.resolve, hplaced.declare_eq,
      (hbody.placed hplaced).declare_eq]
    exact hloop

/-- The second run can take so many steps where the first one takes one, unless it is cut short
before. -/
theorem Side.Ample.spend (h : side.Ample (n + 1) k) (i : Nat) (hi : 1 ≤ i ∧ i ≤ 4) :
    side = .second ∧ k < i ∨ ∃ l, k = l + i ∧ side.Ample n l := by
  cases side with
  | first => exact .inr ⟨k - i, by simp only [Side.Ample] at h ⊢; omega⟩
  | second =>
    rcases Nat.lt_or_ge k i with hlt | hge
    · exact .inl ⟨rfl, hlt⟩
    · exact .inr ⟨k - i, by simp only [Side.Ample] at h ⊢; omega⟩

/-- A list of one statement ends as the statement does. -/
theorem execAll_single (k : Nat) (stack : Stack) (st : Stmt Address) :
    Interpreter.execAll (k + 1) stack [st] = Interpreter.exec k stack st := by
  cases k with
  | zero => rfl
  | succ k =>
    simp only [Interpreter.execAll]
    generalize Interpreter.exec (k + 1) stack st = t
    apply Step.ext
    intro s
    rw [Step.run_bind]
    cases t.run s with
    | done flow s' => cases flow <;> rfl
    | stopped | cut => rfl

/-- The second run takes frames for the braces too. -/
theorem agree_block {t : Step Flow} {body : List (Stmt Address)}
    (h : t.Agree side φ (true :: flags) Flow.Paired
      (Interpreter.execAll k ((stack'.take treeFrames).take blockFrames) body)) :
    t.Agree side φ flags Flow.Paired (Interpreter.exec (k + 1) stack' (.block body)) := by
  rw [Interpreter.exec]
  exact .guard_right h.braces

theorem Stack.Below.block (h : stack.Below stack') :
    stack.Below ((stack'.take treeFrames).take blockFrames) :=
  (h.take_right treeFrames).take_right blockFrames

/-- Of the three steps for a statement in braces the first run takes the last one only. -/
theorem lockstep_exec_succ (ih : ∀ k, side.Ample n k → Lockstep side n k)
    (hk : side.Ample (n + 1) k) {st st' : Stmt Unit} {listed : Bool} (hstack : stack.Below stack')
    (hst : st.Recast st') (hplaced : st.Placed listed) (h : scopes.Spread flags scopes')
    (hhead : st.declares = true → flags.head? ≠ some true) :
    (Interpreter.exec (n + 1) stack (st.resolve scopes)).Agree side φ flags Flow.Paired
      (Interpreter.exec k stack' (st'.resolve scopes')) := by
  cases hst with
  | inside hst =>
    rcases hk.spend 1 (by decide) with ⟨rfl, hlt⟩ | ⟨l, rfl, hl⟩
    · obtain rfl := Nat.lt_one_iff.1 hlt
      exact .cut_second
    · exact lockstep_exec_inside (ih l hl) hstack hst hplaced h hhead
  | @braces _ st' hdeclaration hst =>
    have hplaced := hplaced.of_isDeclaration hdeclaration
    rcases hk.spend 3 (by decide) with ⟨rfl, hlt⟩ | ⟨l, rfl, hl⟩
    · -- The second run is cut short in the braces, before it comes to the statement.
      match k, hlt with
      | 0, _ => exact .cut_second
      | 1, _ => exact agree_block .cut_second
      | 2, _ => exact agree_block .cut_second
    · have hinside := lockstep_exec_inside (φ := φ) (ih l hl) hstack.block hst hplaced (.extra h)
        hplaced.undeclaring
      rw [← execAll_single (l + 1)] at hinside
      exact agree_block hinside

theorem lockstep_execAll_succ (ih : Lockstep side n k) {ss ss' : List (Stmt Unit)}
    (hstack : stack.Below stack') (hss : Stmt.AllRecast ss ss') (hplaced : Stmt.AllPlaced ss)
    (h : scopes.Spread flags scopes') (hhead : flags.head? ≠ some true) :
    (Interpreter.execAll (n + 1) stack (Stmt.resolveAll scopes ss)).Agree side φ flags
      Flow.Paired (Interpreter.execAll (k + 1) stack' (Stmt.resolveAll scopes' ss')) := by
  cases hss with
  | nil => exact .pure fun _ _ => .normal
  | cons hst hss =>
    obtain ⟨hfirst, hrest⟩ := hplaced
    simp only [Stmt.resolveAll, Interpreter.execAll]
    refine (ih.exec hstack hst hfirst h fun _ => hhead).bind fun φ₁ flow flow' _ hflow => ?_
    cases hflow with
    | normal =>
      exact ih.execAll hstack hss hrest (hst.declare hfirst h fun _ => hhead) hhead
    | jump j => exact .pure fun _ _ => .jump j
    | give hv => exact .pure fun _ hφ => .give (hv.mono hφ)

/-- What follows a round of a loop, if it goes on after the round and if it does not. -/
theorem agree_round {f f' : Flow → Step Flow}
    (hf : f (.jump .exit) = .pure .normal ∧ f (.jump .again) = f .normal ∧
      ∀ v, f (.give v) = .pure (.give v))
    (hf' : f' (.jump .exit) = .pure .normal ∧ f' (.jump .again) = f' .normal ∧
      ∀ v, f' (.give v) = .pure (.give v))
    (hnext : (f .normal).Agree side φ flags Flow.Paired (f' .normal)) (φ' : List Nat)
    (flow flow' : Flow) (hφ : φ <+: φ') (hflow : flow.Paired φ' flow') :
    (f flow).Agree side φ' flags Flow.Paired (f' flow') := by
  obtain ⟨hexit, hagain, hgive⟩ := hf
  obtain ⟨hexit', hagain', hgive'⟩ := hf'
  have hnext := hnext.later hφ
  cases hflow with
  | normal => exact hnext
  | jump j => cases j with
    | exit =>
      rw [hexit, hexit']
      exact .pure fun _ _ => .normal
    | again =>
      rw [hagain, hagain']
      exact hnext
  | give hv =>
    rw [hgive, hgive']
    exact .pure fun _ hφ' => .give (hv.mono hφ')

/-- A statement without a `continue` of its own never ends with one. -/
theorem exec_ne_again {st : Stmt Address} (hst : st.escapes (.jump .again) = false)
    {s s' : Interpreter} (hs : s.globals = Machine.globals) {flow : Flow}
    (hrun : (Interpreter.exec n stack st).run s = .done flow s') : flow ≠ .jump .again := by
  rintro rfl
  have hfollows := (followingEval n).exec stack st s hs
  rw [hrun] at hfollows
  have hescapes := (escapingEval n).exec _ st _ _ _ hfollows.symm _ rfl
  exact Bool.false_ne_true (hst.symm.trans hescapes)

/-- The body and, unless the body has been left, the step, as one statement. -/
def bodyAndStep (n : Nat) (stack : Stack) (body : Stmt Address) (step : Expr Address) :
    Step Flow :=
  (Interpreter.exec n stack body).bind fun flow =>
    match flow with
    | .normal => Interpreter.exec n stack (.expression step)
    | flow => .pure flow

theorem exec_expression_normal {e : Expr Address} {s s' : Interpreter} {flow : Flow}
    (hrun : (Interpreter.exec n stack (.expression e)).run s = .done flow s') :
    flow = .normal := by
  cases n with
  | zero => cases hrun
  | succ n =>
    rw [Interpreter.exec, Step.guard] at hrun
    split at hrun
    · cases hrun
    · rw [Step.run_bind] at hrun
      split at hrun <;> cases hrun
      rfl

/-- A round with a step is a round of the body with the step at its end. -/
theorem run_bodyAndStep {body : Stmt Address} (hbody : body.escapes (.jump .again) = false)
    (step : Expr Address) (next : Step Flow) (s : Interpreter)
    (hs : s.globals = Machine.globals) :
    ((Interpreter.exec n stack body).bind fun flow =>
      match flow with
      | .jump .exit => .pure .normal
      | .give v => .pure (.give v)
      | .normal | .jump .again =>
        (Interpreter.exec n stack (.expression step)).bind fun _ => next).run s =
    ((bodyAndStep n stack body step).bind fun flow =>
      match flow with
      | .jump .exit => .pure .normal
      | .give v => .pure (.give v)
      | .normal | .jump .again => next).run s := by
  unfold bodyAndStep
  simp only [Step.run_bind]
  cases hrun : (Interpreter.exec n stack body).run s with
  | stopped | cut => rfl
  | done flow s' => cases flow with
    | give v => rfl
    | jump j => cases j with
      | exit => rfl
      | again => exact absurd rfl (exec_ne_again hbody hs hrun)
    | normal =>
      simp only [Step.run_bind]
      cases hstep : (Interpreter.exec n stack (.expression step)).run s' with
      | stopped | cut => rfl
      | done flow s'' =>
        obtain rfl := exec_expression_normal hstep
        rfl

theorem Step.Agree.congr {α β : Type} {V : List Nat → α → β → Prop} {t u : Step α} {t' : Step β}
    (h : ∀ s, s.globals = Machine.globals → t.run s = u.run s)
    (hu : u.Agree side φ flags V t') : t.Agree side φ flags V t' := by
  intro φ' s s' hφ hs
  rw [h s hs.globals]
  exact hu φ' s s' hφ hs

/-- The body and the step in the block that they are put into. -/
theorem lockstep_bodyAndStep (ih : ∀ k, side.Ample n k → Lockstep side n k)
    (hk : side.Ample (n + 1) (k + 1)) {body body' : Stmt Unit} (hstack : stack.Below stack')
    (hbody : body.Recast body') (hplaced : body.Placed false) (step : Expr Unit)
    (h : scopes.Spread flags scopes') :
    (bodyAndStep n stack (body.resolve scopes) (step.resolve scopes)).Agree side φ flags
      Flow.Paired (Interpreter.exec k stack'
        ((Stmt.block [body', .expression step]).resolve scopes')) := by
  have hplaced' := hbody.placed hplaced
  simp only [Stmt.resolve, Stmt.resolveAll, hplaced'.declare_eq]
  rcases hk.spend 4 (by decide) with ⟨rfl, hlt⟩ | ⟨l, hl, hample⟩
  · -- The second run is cut short before the body.
    obtain rfl | rfl | rfl : k = 0 ∨ k = 1 ∨ k = 2 := by omega
    · exact .cut_second
    · exact agree_block .cut_second
    · exact agree_block .cut_second
  · obtain rfl : k = l + 3 := by omega
    have hbodyAmple : side.Ample n (l + 1) := by
      cases side <;> simp only [Side.Ample] at hk ⊢ <;> omega
    refine agree_block ((ih _ hbodyAmple).exec hstack.block hbody hplaced (.extra h)
      hplaced.undeclaring |>.bind fun φ₁ flow flow' _ hflow => ?_)
    cases hflow with
    | normal =>
      have hexpression : (Stmt.expression step).Placed false := trivial
      have hstep := (ih l hample).exec (φ := φ₁) hstack.block (.inside (.expression step))
        hexpression (.extra h) hexpression.undeclaring
      rw [← execAll_single l] at hstep
      exact hstep
    | jump j => exact .pure fun _ _ => .jump j
    | give hv => exact .pure fun _ hφ => .give (hv.mono hφ)

theorem lockstep_execLoop_succ (ih : ∀ k, side.Ample n k → Lockstep side n k)
    (hk : side.Ample (n + 1) (k + 1)) (hn : Lockstep side n k) {body body' : Stmt Unit}
    {step step' : Option (Stmt Unit)} (hstack : stack.Below stack') (condition : Expr Unit)
    (hrounds : Rounds body step body' step') (hplaced : body.Placed false)
    (h : scopes.Spread flags scopes') :
    (Interpreter.execLoop (n + 1) stack (condition.resolve scopes) (body.resolve scopes)
      (step.map (Stmt.resolve scopes))).Agree side φ flags Flow.Paired
      (Interpreter.execLoop (k + 1) stack' (condition.resolve scopes') (body'.resolve scopes')
        (step'.map (Stmt.resolve scopes'))) := by
  have hnext (φ' : List Nat) := hn.execLoop (φ := φ') hstack condition hrounds hplaced h
  simp only [Interpreter.execLoop]
  refine (hn.eval hstack condition h).bind fun φ₁ v v' _ hv => ?_
  rw [hv.alike.isTruthy_eq]
  refine .ite ?_ (.pure fun _ _ => .normal)
  cases hrounds with
  | stepless hbody =>
    exact (hn.exec hstack hbody hplaced h hplaced.undeclaring).bind
      (agree_round ⟨rfl, rfl, fun _ => rfl⟩ ⟨rfl, rfl, fun _ => rfl⟩ (hnext φ₁))
  | stepped hbody hstep hsecond =>
    refine (hn.exec hstack hbody hplaced h hplaced.undeclaring).bind
      (agree_round ⟨rfl, rfl, fun _ => rfl⟩ ⟨rfl, rfl, fun _ => rfl⟩ ?_)
    exact (hn.exec hstack hstep hsecond h hsecond.undeclaring).bind fun φ₂ _ _ _ _ => hnext φ₂
  | stepInside hbody hagain step =>
    rw [← Stmt.escapes_resolve _ _ scopes] at hagain
    refine .congr (run_bodyAndStep hagain _ _) ?_
    exact (lockstep_bodyAndStep ih hk hstack hbody hplaced step h).bind
      (agree_round ⟨rfl, rfl, fun _ => rfl⟩ ⟨rfl, rfl, fun _ => rfl⟩ (hnext φ₁))

theorem lockstep_execDo_succ (ih : Lockstep side n k) {body body' : Stmt Unit}
    (hstack : stack.Below stack') (hbody : body.Recast body') (hplaced : body.Placed false)
    (condition : Expr Unit) (h : scopes.Spread flags scopes') :
    (Interpreter.execDo (n + 1) stack (body.resolve scopes)
      (condition.resolve scopes)).Agree side φ flags Flow.Paired
      (Interpreter.execDo (k + 1) stack' (body'.resolve scopes')
        (condition.resolve scopes')) := by
  simp only [Interpreter.execDo]
  refine (ih.exec hstack hbody hplaced h hplaced.undeclaring).bind
    (agree_round ⟨rfl, rfl, fun _ => rfl⟩ ⟨rfl, rfl, fun _ => rfl⟩ ?_)
  refine (ih.eval hstack condition h).bind fun φ₂ v v' _ hv => ?_
  rw [hv.alike.isTruthy_eq]
  exact .ite (ih.execDo hstack hbody hplaced condition h) (.pure fun _ _ => .normal)

theorem lockstep_succ (ih : ∀ k, side.Ample n k → Lockstep side n k)
    (hk : side.Ample (n + 1) (k + 1)) (hn : Lockstep side n k) : Lockstep side (n + 1) (k + 1) := by
  refine ⟨lockstep_eval_succ hn, fun hstack es h => ?_, lockstep_call_succ hn,
    lockstep_exec_succ ih hk, lockstep_execAll_succ hn, lockstep_execLoop_succ ih hk hn,
    lockstep_execDo_succ hn, fun hstack hsubject has hplaced h => ?_⟩
  · cases es with
    | nil => exact .pure fun _ _ => .nil
    | cons e es =>
      exact (hn.eval hstack e h).bind fun _ _ _ _ hv =>
        (hn.evalAll hstack es h).bind fun _ _ _ hφ hvs =>
          .pure fun _ hφ' => .cons (hv.mono (hφ.trans hφ')) (hvs.imp fun _ _ hw => hw.mono hφ')
  · cases has with
    | done => exact .pure fun _ _ => .normal
    | otherwise hbody =>
      have hplaced : Stmt.Placed false _ := hplaced
      exact hn.exec hstack hbody hplaced h hplaced.undeclaring
    | case condition hbody hrest =>
      obtain ⟨hfirst, hothers⟩ := hplaced
      refine (hn.eval hstack condition h).bind fun φ₁ v v' hφ hv => ?_
      rw [hv.alike.isEqual_eq hsubject.alike]
      exact .ite (hn.exec hstack hbody hfirst h hfirst.undeclaring)
        (hn.execArms hstack (hsubject.mono hφ) hrest hothers
          (hbody.declare hfirst h hfirst.undeclaring))

theorem lockstep (hk : side.Ample n k) : Lockstep side n k := by
  induction n generalizing k with
  | zero => cases side with
    | first => constructor <;> intros <;> exact .cut_first
    | second =>
      obtain rfl := Nat.le_zero.1 hk
      constructor <;> intros <;> exact .cut_second
  | succ n ih =>
    rcases hk.spend 1 (by decide) with ⟨rfl, hlt⟩ | ⟨l, rfl, hl⟩
    · obtain rfl := Nat.lt_one_iff.1 hlt
      constructor <;> intros <;> exact .cut_second
    · exact lockstep_succ (fun _ => ih) hk (ih hl)

/-- The statements of a program. -/
theorem lockstep_execEach (hk : side.Ample n k) {ss ss' : List (Stmt Unit)}
    (hstack : stack.Below stack') (hss : Stmt.AllRecast ss ss') (hplaced : Stmt.AllPlaced ss)
    (h : scopes.Spread flags scopes') (hhead : flags.head? ≠ some true) :
    (Interpreter.execEach n stack (Stmt.resolveAll scopes ss)).Agree side φ flags
      (fun _ _ _ => True) (Interpreter.execEach k stack' (Stmt.resolveAll scopes' ss')) := by
  induction ss generalizing ss' scopes scopes' φ with
  | nil =>
    cases hss with
    | nil => exact .pure fun _ _ => trivial
  | cons st ss ih =>
    cases hss with
    | cons hst hss =>
      exact ((lockstep hk).exec hstack hst hplaced.1 h fun _ => hhead).bind fun _ _ _ _ _ =>
        ih hss hplaced.2 (hst.declare hplaced.1 h fun _ => hhead)

end Scriptlet

import Scriptlet.Proofs.Scoping.Visits

/-! What stops an evaluation was met in one of the evaluations inside, since nothing ever goes on
after a stop. -/
namespace Scriptlet

variable {α β : Type} {why : Stop} {m m' : Machine}

namespace Outcome

/-- Why the step was stopped, if it was. -/
def stop? : Outcome α → Option Stop
  | stopped why _ => some why
  | _ => none

theorem stop_bind {o : Outcome α} {g : α → Machine → Outcome β}
    (h : (o.bind g).stop? = some why) :
    o.stop? = some why ∨ ∃ a m, o = .done a m ∧ (g a m).stop? = some why := by
  cases o with
  | done a m => exact .inr ⟨a, m, rfl, h⟩
  | stopped why m => exact .inl h
  | outOfFuel m => cases h

/-- What cannot fail after a step leaves it to the step to stop. -/
theorem stop_bind_done {o : Outcome α} {g : α → Machine → β} {g' : α → Machine → Machine}
    (h : (o.bind fun a m => .done (g a m) (g' a m)).stop? = some why) : o.stop? = some why := by
  rcases stop_bind h with h | ⟨_, _, _, h⟩
  · exact h
  · cases h

theorem stop_guard {c : Context} {f : Context → Outcome α}
    (h : (c.guard m f).stop? = some why) :
    (∃ caller, c.stack.overflow? = some caller ∧ why = .error ⟨caller, .stackOverflow⟩) ∨
      c.stack.overflow? = none ∧ (f c).stop? = some why := by
  unfold Context.guard at h
  split at h
  next caller hover => exact .inl ⟨caller, hover, (Option.some.inj h).symm⟩
  next hroom => exact .inr ⟨hroom, h⟩

theorem stop_ofExcept {e : Except Stop α} (h : (ofExcept m e).stop? = some why) :
    e = .error why := by
  cases e with
  | ok a => cases h
  | error why =>
    obtain rfl := Option.some.inj h
    rfl

end Outcome

open Outcome

theorem Machine.stop_update {a : α} {e : Except Stop (Store Value)}
    (h : (m.update a e).stop? = some why) : e = .error why := by
  cases e with
  | ok s => cases h
  | error why =>
    obtain rfl := Option.some.inj h
    rfl

namespace Task

/-- Why the evaluation is stopped, if it is. -/
def stop? : Task → Option Stop
  | expr n c e m => (eval n c e m).stop?
  | exprs n c es m => (evalAll n c es m).stop?
  | call n c paren f vs m => (Scriptlet.call n c paren f vs m).stop?
  | stmt n c s m => (exec n c s m).stop?
  | stmts n c ss m => (execAll n c ss m).stop?
  | rounds n c condition body step m => (execLoop n c condition body step m).stop?
  | doRounds n c body condition m => (execDo n c body condition m).stop?
  | arms n c subject as m => (execArms n c subject as m).stop?
  | program n c ss m => (execEach n c ss m).stop?

/-- It is the evaluation itself that is stopped, when those inside are done. -/
inductive Stops : Task → Stop → Prop where
  | exprOverflow {n : Nat} {c : Context} {e : Expr Address} {m : Machine} {caller : Token}
    (hover : c.deeper.stack.overflow? = some caller) :
    Stops (.expr (n + 1) c e m) (.error ⟨caller, .stackOverflow⟩)
  | stmtOverflow {n : Nat} {c : Context} {s : Stmt Address} {m : Machine} {caller : Token}
    (hover : c.deeper.stack.overflow? = some caller) :
    Stops (.stmt (n + 1) c s m) (.error ⟨caller, .stackOverflow⟩)
  | read {n : Nat} {c : Context} {name : Token} {address : Address} {m : Machine} {why : Stop}
    (hroom : c.deeper.stack.overflow? = none)
    (hread : (m.read c name address).stop? = some why) :
    Stops (.expr (n + 1) c (.reference name address) m) why
  | write {n : Nat} {c : Context} {name : Token} {value : Expr Address} {address : Address}
    {m m' : Machine} {v : Value} {why : Stop} (hroom : c.deeper.stack.overflow? = none)
    (hvalue : eval n c.deeper value m = .done v m')
    (hwrite : (m'.write c name v address).stop? = some why) :
    Stops (.expr (n + 1) c (.assign name value address) m) why
  | unary {n : Nat} {c : Context} {operator : Token} {right : Expr Address} {m m' : Machine}
    {v : Value} {why : Stop} (hroom : c.deeper.stack.overflow? = none)
    (hright : eval n c.deeper right m = .done v m')
    (hwhy : Scriptlet.unary operator v = .error why) :
    Stops (.expr (n + 1) c (.unary operator right) m) why
  | binary {n : Nat} {c : Context} {operator : Token} {left right : Expr Address}
    {m m' m'' : Machine} {l r : Value} {why : Stop} (hroom : c.deeper.stack.overflow? = none)
    (hand : operator.kind ≠ .and) (hor : operator.kind ≠ .or)
    (hleft : eval n c.deeper left m = .done l m') (hright : eval n c.deeper right m' = .done r m'')
    (hwhy : Scriptlet.binary operator l r = .error why) :
    Stops (.expr (n + 1) c (.binary left operator right) m) why
  | notCallable {n : Nat} {c : Context} {callee : Expr Address} {paren : Token}
    {arguments : List (Expr Address)} {m m' : Machine} {v : Value}
    (hroom : c.deeper.stack.overflow? = none)
    (hcallee : eval n c.deeper callee m = .done v m') (hv : Callee.ofValue? v = none) :
    Stops (.expr (n + 1) c (.call callee paren arguments) m) (.error ⟨paren, .notCallable⟩)
  | argumentCount {n : Nat} {c : Context} {paren : Token} {f : Callee} {vs : List Value}
    {m : Machine} (harity : vs.length ≠ f.arity) :
    Stops (.call (n + 1) c paren f vs m) (.error ⟨paren, .argumentCount f.arity vs.length⟩)
  | callOverflow {n : Nat} {c : Context} {paren caller : Token} {f : Callee} {vs : List Value}
    {m : Machine} (harity : vs.length = f.arity)
    (hover : (c.calling paren).stack.overflow? = some caller) :
    Stops (.call (n + 1) c paren f vs m) (.error ⟨caller, .stackOverflow⟩)
  | parameter {n : Nat} {c : Context} {paren : Token} {f : Closure} {vs : List Value}
    {m : Machine} {why : Stop} (harity : vs.length = f.params.length)
    (hroom : (c.calling paren).stack.overflow? = none)
    (hparams : (Machine.defineAll (m.enter f.scope).1 f.params vs (m.enter f.scope).2).stop? =
      some why) :
    Stops (.call (n + 1) c paren (.closure f) vs m) why
  | function {n : Nat} {c : Context} {name : Token} {params : List Token}
    {body : List (Stmt Address)} {m : Machine} {why : Stop}
    (hroom : c.deeper.stack.overflow? = none)
    (hdefine : ({ m with closures := m.closures + 1 }.define c.scope name
      (.closure ⟨m.closures, name, params, body, c.scope⟩)).stop? = some why) :
    Stops (.stmt (n + 1) c (.function name params body) m) why
  | var {n : Nat} {c : Context} {name : Token} {m : Machine} {why : Stop}
    (hroom : c.deeper.stack.overflow? = none)
    (hdefine : (m.define c.scope name .nil).stop? = some why) :
    Stops (.stmt (n + 1) c (.var name none) m) why
  | initialized {n : Nat} {c : Context} {name : Token} {init : Expr Address} {m m' : Machine}
    {v : Value} {why : Stop} (hroom : c.deeper.stack.overflow? = none)
    (hinit : eval n c.deeper init m = .done v m')
    (hdefine : (m'.define c.scope name v).stop? = some why) :
    Stops (.stmt (n + 1) c (.var name (some init)) m) why

/-- What stops the evaluation is met in itself, or in the next one inside. -/
inductive Traced (t : Task) (why : Stop) : Prop where
  | here (h : t.Stops why)
  | inside {path : List Part} {t' : Task} (hroom : t.overflow? = none) (hin : t.Inside path t')
    (h : t'.stop? = some why)
  | body {t' : Task} {g : Closure} {scope : Scope} (hbody : t.Enters g scope t')
    (h : t'.stop? = some why)

variable {n : Nat} {c : Context}

theorem traced_expr {e : Expr Address} (h : (expr (n + 1) c e m).stop? = some why) :
    (expr (n + 1) c e m).Traced why := by
  change (eval (n + 1) c e m).stop? = some why at h
  rw [eval] at h
  rcases stop_guard h with ⟨caller, hover, rfl⟩ | ⟨hroom, h⟩
  · exact .here (.exprOverflow hover)
  cases e with
  | literal => cases h
  | reference name address =>
    exact .here (.read hroom h)
  | grouping inner =>
    exact .inside hroom .grouping h
  | assign name value address =>
    rcases stop_bind h with h | ⟨v, m', hvalue, h⟩
    · exact .inside hroom .assign h
    · exact .here (.write hroom hvalue h)
  | unary operator right =>
    rcases stop_bind h with h | ⟨v, m', hright, h⟩
    · exact .inside hroom .unary h
    · exact .here (.unary hroom hright (stop_ofExcept h))
  | conditional condition yes no =>
    rcases stop_bind h with h | ⟨v, m', hcondition, h⟩
    · exact .inside hroom .condition h
    · split at h
      next hv => exact .inside hroom (.yes hcondition hv) h
      next hv => exact .inside hroom (.no hcondition (by simpa using hv)) h
  | binary left operator right =>
    rcases stop_bind h with h | ⟨l, m', hleft, h⟩
    · exact .inside hroom .left h
    · split at h
      next hkind =>
        split at h
        next hl => exact .inside hroom (.right hleft (fun _ => hl) (by simp [hkind])) h
        next => cases h
      next hkind =>
        split at h
        next => cases h
        next hl => exact .inside hroom (.right hleft (by simp [hkind])
          (fun _ => by simpa using hl)) h
      next hand hor =>
        rcases stop_bind h with h | ⟨r, m'', hright, h⟩
        · exact .inside hroom (.right hleft (fun hk => absurd hk hand) (fun hk => absurd hk hor)) h
        · exact .here (.binary hroom hand hor hleft hright (stop_ofExcept h))
  | call callee paren arguments =>
    rcases stop_bind h with h | ⟨v, m', hcallee, h⟩
    · exact .inside hroom .callee h
    · cases hv : Callee.ofValue? v with
      | none =>
        rw [hv] at h
        obtain rfl := Option.some.inj h
        exact .here (.notCallable hroom hcallee hv)
      | some g =>
        rw [hv] at h
        rcases stop_bind h with h | ⟨vs, m'', harguments, h⟩
        · exact .inside hroom (.arguments hcallee hv) h
        · exact .inside hroom (.call hcallee hv harguments) h

theorem traced_exprs {es : List (Expr Address)} (h : (exprs (n + 1) c es m).stop? = some why) :
    (exprs (n + 1) c es m).Traced why := by
  change (evalAll (n + 1) c es m).stop? = some why at h
  cases es with
  | nil => cases h
  | cons e es =>
    rw [evalAll] at h
    rcases stop_bind h with h | ⟨v, m', he, h⟩
    · exact .inside rfl .argument h
    · exact .inside rfl (.moreArguments he) (stop_bind_done h)

theorem traced_call {paren : Token} {g : Callee} {vs : List Value}
    (h : (call (n + 1) c paren g vs m).stop? = some why) :
    (call (n + 1) c paren g vs m).Traced why := by
  change (Scriptlet.call (n + 1) c paren g vs m).stop? = some why at h
  unfold Scriptlet.call at h
  split at h
  next harity =>
    obtain rfl := Option.some.inj h
    exact .here (.argumentCount harity)
  next harity =>
    have harity : vs.length = g.arity := Decidable.not_not.1 harity
    rcases stop_guard h with ⟨caller, hover, rfl⟩ | ⟨hroom, h⟩
    · exact .here (.callOverflow harity hover)
    cases g with
    | native g => cases h
    | closure g =>
      rcases stop_bind h with h | ⟨_, m', hparams, h⟩
      · exact .here (.parameter harity hroom h)
      · exact .body (.intro harity hroom hparams) (stop_bind_done h)

theorem traced_stmt {s : Stmt Address} (h : (stmt (n + 1) c s m).stop? = some why) :
    (stmt (n + 1) c s m).Traced why := by
  change (exec (n + 1) c s m).stop? = some why at h
  rw [exec] at h
  rcases stop_guard h with ⟨caller, hover, rfl⟩ | ⟨hroom, h⟩
  · exact .here (.stmtOverflow hover)
  cases s with
  | jump => cases h
  | block => exact .inside hroom .block h
  | doLoop => exact .inside hroom .doLoop h
  | loop => exact .inside hroom .loop h
  | loopStep => exact .inside hroom .loopStep h
  | expression =>
    exact .inside hroom .expression (stop_bind_done h)
  | print =>
    exact .inside hroom .print (stop_bind_done h)
  | function =>
    exact .here (.function hroom (stop_bind_done h))
  | ifThen =>
    rcases stop_bind h with h | ⟨v, m', hcondition, h⟩
    · exact .inside hroom .ifCondition h
    · split at h
      next hv => exact .inside hroom (.ifThen hcondition hv) h
      next => cases h
  | ifElse =>
    rcases stop_bind h with h | ⟨v, m', hcondition, h⟩
    · exact .inside hroom .elseCondition h
    · split at h
      next hv => exact .inside hroom (.thenBranch hcondition hv) h
      next hv => exact .inside hroom (.elseBranch hcondition (by simpa using hv)) h
  | give keyword value =>
    cases value with
    | none => cases h
    | some value =>
      exact .inside hroom .give (stop_bind_done h)
  | switch =>
    rcases stop_bind h with h | ⟨v, m', hsubject, h⟩
    · exact .inside hroom .subject h
    · exact .inside hroom (.arms hsubject) h
  | var name init =>
    cases init with
    | none =>
      exact .here (.var hroom (stop_bind_done h))
    | some init =>
      rcases stop_bind h with h | ⟨v, m', hinit, h⟩
      · exact .inside hroom .initializer h
      · exact .here (.initialized hroom hinit (stop_bind_done h))

theorem traced_stmts {ss : List (Stmt Address)} (h : (stmts (n + 1) c ss m).stop? = some why) :
    (stmts (n + 1) c ss m).Traced why := by
  change (execAll (n + 1) c ss m).stop? = some why at h
  cases ss with
  | nil => cases h
  | cons s ss =>
    rw [execAll] at h
    rcases stop_bind h with h | ⟨flow, m', hs, h⟩
    · exact .inside rfl .first h
    · cases flow with
      | normal => exact .inside rfl (.others hs) h
      | jump | give => cases h

theorem traced_step {condition : Expr Address} {body step : Stmt Address} {m'' : Machine}
    {v : Value} {flow : Flow} (hcondition : eval n c condition m = .done v m')
    (hv : v.isTruthy = true) (hbody : exec n c body m' = .done flow m'')
    (hflow : flow = .normal ∨ flow = .jump .again)
    (h : ((exec n c step m'').bind fun _ m =>
      execLoop n c condition body (some step) m).stop? = some why) :
    (rounds (n + 1) c condition body (some step) m).Traced why := by
  rcases stop_bind h with h | ⟨flow', m₃, hstep, h⟩
  · exact .inside rfl (.step hcondition hv hbody hflow) h
  · exact .inside rfl (.nextStep hcondition hv hbody hflow hstep) h

theorem traced_rounds {condition : Expr Address} {body : Stmt Address}
    {step : Option (Stmt Address)} (h : (rounds (n + 1) c condition body step m).stop? = some why) :
    (rounds (n + 1) c condition body step m).Traced why := by
  change (execLoop (n + 1) c condition body step m).stop? = some why at h
  rw [execLoop] at h
  rcases stop_bind h with h | ⟨v, m', hcondition, h⟩
  · exact .inside rfl .loopCondition h
  · split at h
    next hv =>
      rcases stop_bind h with h | ⟨flow, m'', hbody, h⟩
      · exact .inside rfl (.loopBody hcondition hv) h
      · cases step with
        | none =>
          rcases flow with _ | (_ | _) | _
          · exact .inside rfl (.nextRound hcondition hv hbody (.inl rfl)) h
          · cases h
          · exact .inside rfl (.nextRound hcondition hv hbody (.inr rfl)) h
          · cases h
        | some step =>
          rcases flow with _ | (_ | _) | _
          · exact traced_step hcondition hv hbody (.inl rfl) h
          · cases h
          · exact traced_step hcondition hv hbody (.inr rfl) h
          · cases h
    next => cases h

theorem traced_doRounds {condition : Expr Address} {body : Stmt Address}
    (h : (doRounds (n + 1) c body condition m).stop? = some why) :
    (doRounds (n + 1) c body condition m).Traced why := by
  change (execDo (n + 1) c body condition m).stop? = some why at h
  rw [execDo] at h
  rcases stop_bind h with h | ⟨flow, m', hbody, h⟩
  · exact .inside rfl .doBody h
  · have hround (hflow : flow = .normal ∨ flow = .jump .again)
        (h : ((eval n c condition m').bind fun v m =>
          if v.isTruthy then execDo n c body condition m else .done .normal m).stop? = some why) :
        (doRounds (n + 1) c body condition m).Traced why := by
      rcases stop_bind h with h | ⟨v, m'', hcondition, h⟩
      · exact .inside rfl (.doCondition hbody hflow) h
      · split at h
        next hv => exact .inside rfl (.doRound hbody hflow hcondition hv) h
        next => cases h
    rcases flow with _ | (_ | _) | _
    · exact hround (.inl rfl) h
    · cases h
    · exact hround (.inr rfl) h
    · cases h

theorem traced_arms {subject : Value} {as : Arms Address}
    (h : (arms (n + 1) c subject as m).stop? = some why) :
    (arms (n + 1) c subject as m).Traced why := by
  change (execArms (n + 1) c subject as m).stop? = some why at h
  cases as with
  | done => cases h
  | otherwise body => exact .inside rfl .otherwise h
  | case condition body rest =>
    rw [execArms] at h
    rcases stop_bind h with h | ⟨w, m', hcondition, h⟩
    · exact .inside rfl .armCondition h
    · split at h
      next hw => exact .inside rfl (.armBody hcondition hw) h
      next hw => exact .inside rfl (.nextArm hcondition (by simpa using hw)) h

theorem traced_program {ss : List (Stmt Address)} (h : (program n c ss m).stop? = some why) :
    (program n c ss m).Traced why := by
  cases ss with
  | nil => cases h
  | cons s ss =>
    rcases stop_bind h with h | ⟨flow, m', hs, h⟩
    · exact .inside rfl .topFirst h
    · exact .inside rfl (.topOthers hs) h

/-- A stop does not come from nowhere. -/
theorem traced {t : Task} (h : t.stop? = some why) : t.Traced why := by
  cases t with
  | program => exact traced_program h
  | expr n => cases n with
    | zero => cases h
    | succ n => exact traced_expr h
  | exprs n => cases n with
    | zero => cases h
    | succ n => exact traced_exprs h
  | call n => cases n with
    | zero => cases h
    | succ n => exact traced_call h
  | stmt n => cases n with
    | zero => cases h
    | succ n => exact traced_stmt h
  | stmts n => cases n with
    | zero => cases h
    | succ n => exact traced_stmts h
  | rounds n => cases n with
    | zero => cases h
    | succ n => exact traced_rounds h
  | doRounds n => cases n with
    | zero => cases h
    | succ n => exact traced_doRounds h
  | arms n => cases n with
    | zero => cases h
    | succ n => exact traced_arms h

/-- The fuel, and for a program the statements to come. -/
def bound : Task → Nat
  | expr n .. | exprs n .. | call n .. | stmt n .. | stmts n .. | rounds n .. | doRounds n ..
  | arms n .. => n
  | program n _ ss _ => n + ss.length

theorem Inside.bound_lt {path : List Part} {t t' : Task} (hin : t.Inside path t') :
    t'.bound < t.bound := by
  cases hin with
  | topFirst => exact Nat.lt_add_of_pos_right (Nat.succ_pos _)
  | topOthers => exact Nat.lt_succ_self _
  | _ => exact Nat.lt_succ_self _

theorem Enters.bound_lt {t t' : Task} {g : Closure} {scope : Scope} (hbody : t.Enters g scope t') :
    t'.bound < t.bound := by
  cases hbody with
  | intro => exact Nat.lt_succ_self _

end Task

/-- One of the evaluations that take place was stopped itself. -/
theorem Visited.stops {starts : Place → Task → Prop} {t : Task} (h : Visited starts t)
    (hstop : t.stop? = some why) : ∃ t', Visited starts t' ∧ t'.Stops why := by
  -- By induction on the bound: what is traced to an evaluation inside is traced on from there.
  induction hn : t.bound using Nat.strongRecOn generalizing t with
  | ind n ih =>
    cases Task.traced hstop with
    | here hstops => exact ⟨t, h, hstops⟩
    | inside hroom hin hstop => exact ih _ (hn ▸ hin.bound_lt) (h.inside hroom hin) hstop rfl
    | body hbody hstop => exact ih _ (hn ▸ hbody.bound_lt) (h.body hbody) hstop rfl

/-- More evaluations take place if more are started. -/
theorem Visited.mono {starts starts' : Place → Task → Prop}
    (hstarts : ∀ p t, starts p t → ∃ q, starts' q t) {t : Task} (h : Visited starts t) :
    Visited starts' t := by
  induction h with
  | start h =>
    obtain ⟨q, hq⟩ := hstarts _ _ h
    exact .start hq
  | inside _ hroom hin ih => exact ih.inside hroom hin
  | body _ hbody ih => exact ih.body hbody

end Scriptlet

import Scriptlet.Proofs.Evaluation.Alike
import Scriptlet.Proofs.Scoping.Visits

/-! Every closure that a run gets hold of was made by a declaration of the run, which says where its
body belongs. -/
namespace Scriptlet

variable {α β : Type} {starts : Place → Task → Prop} {p : Place} {scopes : Scopes}
  {s s' : Store Value} {n : Nat}

/-- If the value is a closure, a declaration has made it by the time of the store. -/
def Value.Declared (starts : Place → Task → Prop) (s : Store Value) (v : Value) : Prop :=
  ∀ f, v = .closure f → ∃ p scopes t m, Located starts p scopes t ∧ t.Makes f m ∧ m.store.Before s

/-- All closures in the variables have been declared. -/
def Store.Declared (starts : Place → Task → Prop) (s : Store Value) : Prop :=
  ∀ f z v, (s.frame f).lookup z = some v → v.Declared starts s

def Flow.Declared (starts : Place → Task → Prop) (s : Store Value) (flow : Flow) : Prop :=
  ∀ v, flow = .give v → v.Declared starts s

def Callee.Declared (starts : Place → Task → Prop) (s : Store Value) (f : Callee) : Prop :=
  ∀ g, f = .closure g → (Value.closure g).Declared starts s

theorem Value.Declared.mono {v : Value} (h : v.Declared starts s) (hs : s.Before s') :
    v.Declared starts s' := by
  intro f hf
  obtain ⟨p, scopes, t, m, hloc, hmakes, hbefore⟩ := h f hf
  exact ⟨p, scopes, t, m, hloc, hmakes, hbefore.trans hs⟩

theorem declared_of_ne {v : Value} (h : ∀ f, v ≠ .closure f) : v.Declared starts s :=
  fun f hf => absurd hf (h f)

theorem declared_literal (value : Literal) : value.value.Declared starts s := by
  apply declared_of_ne
  intro f
  cases value <;> simp [Literal.value]

theorem declared_callee {v : Value} {f : Callee} (h : v.Declared starts s)
    (hf : Callee.ofValue? v = some f) : f.Declared starts s := by
  intro g hg
  subst hg
  cases v with
  | closure g' =>
    obtain rfl := Callee.closure.inj (Option.some.inj hf)
    exact h
  | _ => simp [Callee.ofValue?] at hf

theorem Store.Declared.grow (h : s.Declared starts) : s.grow.Declared starts := by
  intro f z v hv
  rw [Store.frame_grow] at hv
  exact (h f z v hv).mono (Store.keeps_grow _)

theorem Store.Declared.add {scope : Scope} {name : String} {value : Value}
    (h : s.Declared starts) (hvalue : value.Declared starts (s.add scope name value)) :
    (s.add scope name value).Declared starts := by
  have hkeeps : s.Before (s.add scope name value) := Store.keeps_add trivial
  intro f z v hv
  rcases Store.lookup_of_add hv with rfl | hv
  · exact hvalue
  · exact (h f z v hv).mono hkeeps

theorem Store.Declared.set {scope : Scope} {name : String} {value : Value}
    (h : s.Declared starts) (hvalue : value.Declared starts s) :
    (s.set scope name value).Declared starts := by
  have hkeeps : s.Before (s.set scope name value) := Store.keeps_set _ scope name value
  intro f z v hv
  rcases Store.lookup_of_set hv with rfl | hv
  · exact hvalue.mono hkeeps
  · exact (h f z v hv).mono hkeeps

/-- The step ends with declared closures only, and with a result of this sort. -/
def Outcome.Yields (starts : Place → Task → Prop) (o : Outcome α)
    (V : Store Value → α → Prop) : Prop :=
  match o with
  | .done a m => m.store.Declared starts ∧ V m.store a
  | .stopped _ m => m.store.Declared starts
  | .outOfFuel _ => True

theorem Outcome.Yields.bind {o : Outcome α} {f : α → Machine → Outcome β}
    {V : Store Value → α → Prop} {W : Store Value → β → Prop} (ho : o.Yields starts V)
    (hf : ∀ a m, o = .done a m → m.store.Declared starts → V m.store a →
      (f a m).Yields starts W) : (o.bind f).Yields starts W := by
  cases o with
  | outOfFuel m => trivial
  | stopped why m => exact ho
  | done a m => exact hf a m rfl ho.1 ho.2

theorem Outcome.Yields.guard {c : Context} {m : Machine} {f : Context → Outcome α}
    {V : Store Value → α → Prop} (hm : m.store.Declared starts)
    (hf : c.stack.overflow? = none → (f c).Yields starts V) : (c.guard m f).Yields starts V := by
  unfold Context.guard
  split
  · exact hm
  next hroom => exact hf hroom

theorem yields_ofExcept {m : Machine} {e : Except Stop α} {V : Store Value → α → Prop}
    (hm : m.store.Declared starts) (h : ∀ a, e = .ok a → V m.store a) :
    (Outcome.ofExcept m e).Yields starts V := by
  cases e with
  | ok a => exact ⟨hm, h a rfl⟩
  | error why => exact hm

theorem yields_read {m : Machine} (c : Context) (name : Token) (address : Address)
    (hm : m.store.Declared starts) :
    (m.read c name address).Yields starts (Value.Declared starts) := by
  cases address with
  | global =>
    refine yields_ofExcept hm fun v h => ?_
    obtain ⟨owner, hread⟩ := Store.read_of_get h
    exact hm _ _ v hread
  | up d =>
    refine yields_ofExcept hm fun v h => ?_
    obtain ⟨owner, hread⟩ := Store.read_of_getAt h
    exact hm _ _ v hread

theorem yields_write {m : Machine} (c : Context) (name : Token) {v : Value} (address : Address)
    (hm : m.store.Declared starts) (hv : v.Declared starts m.store) :
    (m.write c name v address).Yields starts (Value.Declared starts) := by
  have hupdate (e : Except Stop (Store Value))
      (he : ∀ s, e = .ok s → ∃ owner, s = m.store.set owner name.lexeme v) :
      (m.update v e).Yields starts (Value.Declared starts) := by
    cases e with
    | ok s =>
      obtain ⟨owner, rfl⟩ := he s rfl
      exact ⟨hm.set hv, hv.mono (Store.keeps_set _ owner name.lexeme v)⟩
    | error why => exact hm
  cases address with
  | global => exact hupdate _ fun _ => Store.set_of_assign
  | up d => exact hupdate _ fun _ => Store.set_of_assignAt

theorem yields_define {m : Machine} {scope : Scope} {name : Token} {v : Value}
    {V : Store Value → Unit → Prop} (hm : m.store.Declared starts)
    (hv : ∀ s, m.store.define scope name v = .ok s → v.Declared starts s ∧ V s ()) :
    (m.define scope name v).Yields starts V := by
  unfold Machine.define
  cases h : m.store.define scope name v with
  | error why => exact hm
  | ok s =>
    obtain ⟨-, rfl⟩ := Store.define_eq_ok.1 h
    obtain ⟨hvalue, hV⟩ := hv _ h
    exact ⟨hm.add hvalue, hV⟩

theorem yields_defineAll {scope : Scope} {ps : List Token} {vs : List Value} {m : Machine}
    (hm : m.store.Declared starts) (hvs : ∀ v ∈ vs, v.Declared starts m.store) :
    (Machine.defineAll scope ps vs m).Yields starts fun _ _ => True := by
  induction ps generalizing vs m with
  | nil => exact ⟨hm, trivial⟩
  | cons p ps ih =>
    cases vs with
    | nil => exact ⟨hm, trivial⟩
    | cons v vs =>
      have hkeeps : (m.define scope p v).Keeps (fun _ => True) m.store := keeps_define trivial
      have hdefine : (m.define scope p v).Yields starts fun s _ =>
          ∀ w ∈ vs, w.Declared starts s := by
        apply yields_define hm
        intro s hs
        rw [Machine.define, hs] at hkeeps
        refine ⟨(hvs v (by simp)).mono hkeeps, fun w hw => ?_⟩
        exact (hvs w (by simp [hw])).mono hkeeps
      exact hdefine.bind fun _ m _ hm hvs => ih hm hvs

/-- What evaluation with this much fuel leaves behind, wherever it takes place. -/
structure DeclaringEval (starts : Place → Task → Prop) (n : Nat) : Prop where
  eval {p : Place} {scopes : Scopes} {c : Context} {e : Expr Address} {m : Machine}
    (h : Located starts p scopes (.expr n c e m)) (hm : m.store.Declared starts) :
    (eval n c e m).Yields starts (Value.Declared starts)
  evalAll {p : Place} {scopes : Scopes} {c : Context} {es : List (Expr Address)} {m : Machine}
    (h : Located starts p scopes (.exprs n c es m)) (hm : m.store.Declared starts) :
    (evalAll n c es m).Yields starts fun s vs => ∀ v ∈ vs, v.Declared starts s
  call {p : Place} {scopes : Scopes} {c : Context} {paren : Token} {f : Callee} {vs : List Value}
    {m : Machine} (h : Located starts p scopes (.call n c paren f vs m))
    (hm : m.store.Declared starts) (hf : f.Declared starts m.store)
    (hvs : ∀ v ∈ vs, v.Declared starts m.store) :
    (call n c paren f vs m).Yields starts (Value.Declared starts)
  exec {p : Place} {scopes : Scopes} {c : Context} {st : Stmt Address} {m : Machine}
    (h : Located starts p scopes (.stmt n c st m)) (hm : m.store.Declared starts) :
    (exec n c st m).Yields starts (Flow.Declared starts)
  execAll {p : Place} {scopes : Scopes} {c : Context} {ss : List (Stmt Address)} {m : Machine}
    (h : Located starts p scopes (.stmts n c ss m)) (hm : m.store.Declared starts) :
    (execAll n c ss m).Yields starts (Flow.Declared starts)
  execLoop {p : Place} {scopes : Scopes} {c : Context} {condition : Expr Address}
    {body : Stmt Address} {step : Option (Stmt Address)} {m : Machine}
    (h : Located starts p scopes (.rounds n c condition body step m))
    (hm : m.store.Declared starts) :
    (execLoop n c condition body step m).Yields starts (Flow.Declared starts)
  execDo {p : Place} {scopes : Scopes} {c : Context} {body : Stmt Address}
    {condition : Expr Address} {m : Machine}
    (h : Located starts p scopes (.doRounds n c body condition m)) (hm : m.store.Declared starts) :
    (execDo n c body condition m).Yields starts (Flow.Declared starts)
  execArms {p : Place} {scopes : Scopes} {c : Context} {subject : Value} {as : Arms Address}
    {m : Machine} (h : Located starts p scopes (.arms n c subject as m))
    (hm : m.store.Declared starts) :
    (execArms n c subject as m).Yields starts (Flow.Declared starts)

theorem declares_eval_succ (ih : DeclaringEval starts n) {c : Context}
    {e : Expr Address} {m : Machine} (h : Located starts p scopes (.expr (n + 1) c e m))
    (hm : m.store.Declared starts) :
    (eval (n + 1) c e m).Yields starts (Value.Declared starts) := by
  rw [eval]
  refine .guard hm fun hroom => ?_
  cases e with
  | literal value => exact ⟨hm, declared_literal value⟩
  | reference name address => exact yields_read c name address hm
  | grouping inner => exact ih.eval (h.inside hroom .grouping) hm
  | assign name value address =>
    exact (ih.eval (h.inside hroom .assign) hm).bind fun v m _ hm hv =>
      yields_write c name address hm hv
  | unary operator right =>
    refine (ih.eval (h.inside hroom .unary) hm).bind fun v m _ hm _ => ?_
    apply yields_ofExcept hm
    intro w hw f hf
    exact absurd (hf ▸ hw) unary_ne_closure
  | conditional condition yes no =>
    refine (ih.eval (h.inside hroom .condition) hm).bind fun v m hcondition hm _ => ?_
    split
    next hv => exact ih.eval (h.inside hroom (.yes hcondition hv)) hm
    next hv => exact ih.eval (h.inside hroom (.no hcondition (by simpa using hv))) hm
  | binary left operator right =>
    refine (ih.eval (h.inside hroom .left) hm).bind fun l m hleft hm hl => ?_
    split
    next hk =>
      split
      next hv => exact ih.eval (h.inside hroom (.right hleft (fun _ => hv) (by simp [hk]))) hm
      next => exact ⟨hm, hl⟩
    next hk =>
      split
      next => exact ⟨hm, hl⟩
      next hv =>
        exact ih.eval (h.inside hroom (.right hleft (by simp [hk]) fun _ => by simpa using hv)) hm
    next hand hor =>
      refine (ih.eval (h.inside hroom (.right hleft (fun hk => absurd hk hand)
        fun hk => absurd hk hor)) hm).bind fun r m _ hm hr => ?_
      apply yields_ofExcept hm
      intro w hw f hf
      exact hr f (binary_eq_closure (hf ▸ hw)).2
  | call callee paren arguments =>
    refine (ih.eval (h.inside hroom .callee) hm).bind fun v m hcallee hm hv => ?_
    split
    · exact hm
    next f hf =>
      have hkeeps := (keepingEval n).evalAll (fun _ => True) c.deeper arguments m
      refine (ih.evalAll (h.inside hroom (.arguments hcallee hf)) hm).bind
        fun vs m' harguments hm hvs => ?_
      rw [harguments] at hkeeps
      exact ih.call (h.inside hroom (.call hcallee hf harguments)) hm
        (declared_callee (hv.mono hkeeps) hf) hvs

theorem declares_call_succ (ih : DeclaringEval starts n) {c : Context} {paren : Token}
    {f : Callee} {vs : List Value} {m : Machine}
    (h : Located starts p scopes (.call (n + 1) c paren f vs m)) (hm : m.store.Declared starts)
    (hf : f.Declared starts m.store) (hvs : ∀ v ∈ vs, v.Declared starts m.store) :
    (call (n + 1) c paren f vs m).Yields starts (Value.Declared starts) := by
  unfold call
  split
  · exact hm
  next harity =>
    have harity : vs.length = f.arity := Decidable.not_not.1 harity
    refine .guard hm fun hroom => ?_
    cases f with
    | native f =>
      have hstore : (f.after m).store = m.store := f.store_after m
      exact ⟨hstore ▸ hm, declared_of_ne (apply_ne_closure _ f vs)⟩
    | closure f =>
      have hgrow : m.store.Before (m.enter f.scope).2.store := Store.keeps_grow _
      have hparams : (Machine.defineAll (m.enter f.scope).1 f.params vs
          (m.enter f.scope).2).Yields starts fun _ _ => True := by
        apply yields_defineAll
        · exact hm.grow
        · exact fun v hv => (hvs v hv).mono hgrow
      refine hparams.bind fun _ m' hdone hm' _ => ?_
      obtain ⟨q, outer, d, m₀, hd, hmakes, hbefore⟩ := hf f rfl f rfl
      have hbody := h.body (.intro harity hroom hdone) hd hmakes hbefore
      refine (ih.execAll hbody hm').bind fun flow m'' _ hm'' hflow => ⟨hm'', ?_⟩
      cases flow with
      | give v => exact hflow v rfl
      | normal | jump j => exact declared_of_ne fun g => by simp [Flow.result]

theorem declares_exec_succ (ih : DeclaringEval starts n) {c : Context}
    {st : Stmt Address} {m : Machine} (h : Located starts p scopes (.stmt (n + 1) c st m))
    (hm : m.store.Declared starts) :
    (exec (n + 1) c st m).Yields starts (Flow.Declared starts) := by
  rw [exec]
  refine .guard hm fun hroom => ?_
  have hnormal (s : Store Value) : Flow.normal.Declared starts s := fun v hv => by cases hv
  cases st with
  | block body => exact ih.execAll (h.inside hroom .block) hm.grow
  | jump j keyword => exact ⟨hm, fun v hv => by cases hv⟩
  | doLoop body condition => exact ih.execDo (h.inside hroom .doLoop) hm
  | expression value =>
    exact (ih.eval (h.inside hroom .expression) hm).bind fun v m _ hm _ => ⟨hm, hnormal _⟩
  | function name params body =>
    have hdefine : (Machine.define { m with closures := m.closures + 1 } c.scope name
        (.closure ⟨m.closures, name, params, body, c.scope⟩)).Yields starts fun _ _ => True := by
      have hm' : Store.Declared starts { m with closures := m.closures + 1 }.store := hm
      apply yields_define hm'
      intro s hs
      refine ⟨fun f hf => ?_, trivial⟩
      obtain rfl := Value.closure.inj hf
      exact ⟨p, scopes, _, _, h, Task.makes_function hroom hs, Store.Keeps.refl _ s⟩
    exact hdefine.bind fun _ m _ hm _ => ⟨hm, hnormal _⟩
  | ifThen condition yes =>
    refine (ih.eval (h.inside hroom .ifCondition) hm).bind fun v m hcondition hm _ => ?_
    split
    next hv => exact ih.exec (h.inside hroom (.ifThen hcondition hv)) hm
    next => exact ⟨hm, hnormal _⟩
  | ifElse condition yes no =>
    refine (ih.eval (h.inside hroom .elseCondition) hm).bind fun v m hcondition hm _ => ?_
    split
    next hv => exact ih.exec (h.inside hroom (.thenBranch hcondition hv)) hm
    next hv => exact ih.exec (h.inside hroom (.elseBranch hcondition (by simpa using hv))) hm
  | print value =>
    exact (ih.eval (h.inside hroom .print) hm).bind fun v m _ hm _ => ⟨hm, hnormal _⟩
  | give keyword value =>
    cases value with
    | none =>
      refine ⟨hm, fun v hv => ?_⟩
      obtain rfl := Flow.give.inj hv
      exact declared_of_ne fun f => by simp
    | some e =>
      refine (ih.eval (h.inside hroom .give) hm).bind fun v m _ hm hv => ⟨hm, fun w hw => ?_⟩
      obtain rfl := Flow.give.inj hw
      exact hv
  | switch subject arms =>
    exact (ih.eval (h.inside hroom .subject) hm).bind fun v m hsubject hm _ =>
      ih.execArms (h.inside hroom (.arms hsubject)) hm
  | var name init =>
    have hdefine {m : Machine} {v : Value} (hm : m.store.Declared starts)
        (hv : v.Declared starts m.store) :
        ((m.define c.scope name v).bind fun _ m => Outcome.done Flow.normal m).Yields starts
          (Flow.Declared starts) := by
      have hkeeps : (m.define c.scope name v).Keeps (fun _ => True) m.store := keeps_define trivial
      have hyields : (m.define c.scope name v).Yields starts fun _ _ => True := by
        apply yields_define hm
        intro s hs
        rw [Machine.define, hs] at hkeeps
        exact ⟨hv.mono hkeeps, trivial⟩
      exact hyields.bind fun _ m _ hm _ => ⟨hm, hnormal _⟩
    cases init with
    | none => exact hdefine hm (declared_of_ne fun f => by simp)
    | some e =>
      exact (ih.eval (h.inside hroom .initializer) hm).bind fun v m _ hm hv => hdefine hm hv
  | loop condition body => exact ih.execLoop (h.inside hroom .loop) hm
  | loopStep condition body step => exact ih.execLoop (h.inside hroom .loopStep) hm

theorem declares_execLoop_succ (ih : DeclaringEval starts n) {c : Context}
    {condition : Expr Address} {body : Stmt Address} {step : Option (Stmt Address)} {m : Machine}
    (h : Located starts p scopes (.rounds (n + 1) c condition body step m))
    (hm : m.store.Declared starts) :
    (execLoop (n + 1) c condition body step m).Yields starts (Flow.Declared starts) := by
  have hnormal (s : Store Value) : Flow.normal.Declared starts s := fun v hv => by cases hv
  rw [execLoop]
  refine (ih.eval (h.inside rfl .loopCondition) hm).bind fun v m₁ hcondition hm _ => ?_
  split
  next hv =>
    refine (ih.exec (h.inside rfl (.loopBody hcondition hv)) hm).bind
      fun flow m₂ hbody hm hflow => ?_
    have hagain (hgo : flow = .normal ∨ flow = .jump .again) (hstep : step = none) :
        (execLoop n c condition body none m₂).Yields starts (Flow.Declared starts) := by
      subst hstep
      exact ih.execLoop (h.inside rfl (.nextRound hcondition hv hbody hgo)) hm
    have hafter (hgo : flow = .normal ∨ flow = .jump .again) (st : Stmt Address)
        (hstep : step = some st) : ((exec n c st m₂).bind fun _ m =>
          execLoop n c condition body (some st) m).Yields starts (Flow.Declared starts) := by
      subst hstep
      exact (ih.exec (h.inside rfl (.step hcondition hv hbody hgo)) hm).bind fun _ _ hstep hm _ =>
        ih.execLoop (h.inside rfl (.nextStep hcondition hv hbody hgo hstep)) hm
    cases flow with
    | normal => cases step with
      | none => exact hagain (.inl rfl) rfl
      | some st => exact hafter (.inl rfl) st rfl
    | give w => exact ⟨hm, hflow⟩
    | jump j => cases j with
      | exit => exact ⟨hm, hnormal _⟩
      | again => cases step with
        | none => exact hagain (.inr rfl) rfl
        | some st => exact hafter (.inr rfl) st rfl
  next => exact ⟨hm, hnormal _⟩

theorem declares_execDo_succ (ih : DeclaringEval starts n) {c : Context}
    {body : Stmt Address} {condition : Expr Address} {m : Machine}
    (h : Located starts p scopes (.doRounds (n + 1) c body condition m))
    (hm : m.store.Declared starts) :
    (execDo (n + 1) c body condition m).Yields starts (Flow.Declared starts) := by
  have hnormal (s : Store Value) : Flow.normal.Declared starts s := fun v hv => by cases hv
  rw [execDo]
  refine (ih.exec (h.inside rfl .doBody) hm).bind fun flow m₁ hbody hm hflow => ?_
  have hnext (hgo : flow = .normal ∨ flow = .jump .again) : ((eval n c condition m₁).bind
      fun v m => if v.isTruthy then execDo n c body condition m else .done .normal m).Yields
        starts (Flow.Declared starts) := by
    refine (ih.eval (h.inside rfl (.doCondition hbody hgo)) hm).bind fun v m₂ hcondition hm _ => ?_
    split
    next hv => exact ih.execDo (h.inside rfl (.doRound hbody hgo hcondition hv)) hm
    next => exact ⟨hm, hnormal _⟩
  cases flow with
  | normal => exact hnext (.inl rfl)
  | give w => exact ⟨hm, hflow⟩
  | jump j => cases j with
    | exit => exact ⟨hm, hnormal _⟩
    | again => exact hnext (.inr rfl)

theorem declaringEval (starts : Place → Task → Prop) (n : Nat) : DeclaringEval starts n := by
  induction n with
  | zero => constructor <;> intros <;> trivial
  | succ n ih =>
    refine ⟨declares_eval_succ ih, @fun p scopes c es m h hm => ?_, declares_call_succ ih,
      declares_exec_succ ih, @fun p scopes c ss m h hm => ?_, declares_execLoop_succ ih,
      declares_execDo_succ ih, @fun p scopes c subject as m h hm => ?_⟩
    · cases es with
      | nil => exact ⟨hm, by simp⟩
      | cons e es =>
        refine (ih.eval (h.inside rfl .argument) hm).bind fun v m₁ he hm hv => ?_
        have hkeeps := (keepingEval n).evalAll (fun _ => True) c es m₁
        refine (ih.evalAll (h.inside rfl (.moreArguments he)) hm).bind fun vs m₂ hes hm hvs => ?_
        rw [hes] at hkeeps
        exact ⟨hm, by simpa using ⟨hv.mono hkeeps, hvs⟩⟩
    · cases ss with
      | nil => exact ⟨hm, fun v hv => by cases hv⟩
      | cons s ss =>
        rw [execAll]
        refine (ih.exec (h.inside rfl .first) hm).bind fun flow m₁ hs hm hflow => ?_
        cases flow with
        | normal => exact ih.execAll (h.inside rfl (.others hs)) hm
        | give v | jump j => exact ⟨hm, hflow⟩
    · cases as with
      | done => exact ⟨hm, fun v hv => by cases hv⟩
      | otherwise body => exact ih.exec (h.inside rfl .otherwise) hm
      | case condition body rest =>
        rw [execArms]
        refine (ih.eval (h.inside rfl .armCondition) hm).bind fun v m₁ hcondition hm _ => ?_
        split
        next hv => exact ih.exec (h.inside rfl (.armBody hcondition hv)) hm
        next hv => exact ih.execArms (h.inside rfl (.nextArm hcondition (by simpa using hv))) hm

theorem declares_execEach {c : Context} {ss : List (Stmt Address)} {m : Machine}
    (h : Located starts p scopes (.program n c ss m)) (hm : m.store.Declared starts) :
    (execEach n c ss m).Yields starts fun _ _ => True := by
  induction ss generalizing p scopes m with
  | nil => exact ⟨hm, trivial⟩
  | cons s ss ih =>
    exact ((declaringEval starts n).exec (h.inside rfl .topFirst) hm).bind
      fun flow m₁ hs hm _ => ih (h.inside rfl (.topOthers hs)) hm

end Scriptlet

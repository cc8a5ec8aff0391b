import Scriptlet.Proofs.Renaming.Steps

/-! A run and the same run of the renamed program, step by step. -/
namespace Scriptlet

inductive Flow.Renamed (r : Renaming) (starts : Place → Task → Prop) (flags : List Bool)
    (s : Store Value) : Flow → Flow → Prop where
  | normal : Renamed r starts flags s .normal .normal
  | jump (j : Jump) : Renamed r starts flags s (.jump j) (.jump j)
  | give {v v' : Value} (h : v.Renamed r starts flags s v') :
    Renamed r starts flags s (.give v) (.give v')

/-- What evaluation with this much fuel does in both runs. -/
structure AgreeingEval (r : Renaming) (starts : Place → Task → Prop) (n : Nat) : Prop where
  eval {p : Place} {scopes : Scopes} {c : Context} {e : Expr Address} {m m' : Machine}
    {flags : List Bool} (h : Located starts p scopes (.expr n c e m))
    (hm : m.Renamed r starts flags m') (hmarks : r.Marks flags p.scopes c.scope) :
    (eval n c e m).Agree r starts flags (Value.Renamed r starts)
      (eval n c (e.rename r p scopes) m')
  evalAll {p : Place} {scopes : Scopes} {c : Context} {es : List (Expr Address)} {m m' : Machine}
    {flags : List Bool} (h : Located starts p scopes (.exprs n c es m))
    (hm : m.Renamed r starts flags m') (hmarks : r.Marks flags p.scopes c.scope) :
    (evalAll n c es m).Agree r starts flags
      (fun flags s => List.Forall₂ (Value.Renamed r starts flags s))
      (evalAll n c (Expr.renameAll r p scopes es) m')
  call {p : Place} {scopes : Scopes} {c : Context} {paren : Token} {f f' : Callee}
    {vs vs' : List Value} {m m' : Machine} {flags : List Bool}
    (h : Located starts p scopes (.call n c paren f vs m)) (hm : m.Renamed r starts flags m')
    (hf : f.value.Renamed r starts flags m.store f'.value)
    (hvs : List.Forall₂ (Value.Renamed r starts flags m.store) vs vs') :
    (call n c paren f vs m).Agree r starts flags (Value.Renamed r starts)
      (call n c paren f' vs' m')
  exec {p : Place} {scopes : Scopes} {c : Context} {st : Stmt Address} {m m' : Machine}
    {flags : List Bool} (h : Located starts p scopes (.stmt n c st m))
    (hm : m.Renamed r starts flags m') (hmarks : r.Marks flags p.scopes c.scope) :
    (exec n c st m).Agree r starts flags (Flow.Renamed r starts)
      (exec n c (st.rename r p scopes) m')
  execAll {p : Place} {scopes : Scopes} {c : Context} {ss : List (Stmt Address)} {m m' : Machine}
    {flags : List Bool} (h : Located starts p scopes (.stmts n c ss m))
    (hm : m.Renamed r starts flags m') (hmarks : r.Marks flags p.scopes c.scope) :
    (execAll n c ss m).Agree r starts flags (Flow.Renamed r starts)
      (execAll n c (Stmt.renameAll r p scopes ss) m')
  execLoop {p : Place} {scopes : Scopes} {c : Context} {condition : Expr Address}
    {body : Stmt Address} {step : Option (Stmt Address)} {m m' : Machine} {flags : List Bool}
    (h : Located starts p scopes (.rounds n c condition body step m))
    (hm : m.Renamed r starts flags m') (hmarks : r.Marks flags p.scopes c.scope) :
    (execLoop n c condition body step m).Agree r starts flags (Flow.Renamed r starts)
      (execLoop n c (condition.rename r (.child 0 :: p) scopes)
        (body.rename r (.child 1 :: p) scopes)
        (step.map (Stmt.rename r (.child 2 :: p) (body.declare scopes))) m')
  execDo {p : Place} {scopes : Scopes} {c : Context} {body : Stmt Address}
    {condition : Expr Address} {m m' : Machine} {flags : List Bool}
    (h : Located starts p scopes (.doRounds n c body condition m))
    (hm : m.Renamed r starts flags m') (hmarks : r.Marks flags p.scopes c.scope) :
    (execDo n c body condition m).Agree r starts flags (Flow.Renamed r starts)
      (execDo n c (body.rename r (.child 0 :: p) scopes)
        (condition.rename r (.child 1 :: p) (body.declare scopes)) m')
  execArms {p : Place} {scopes : Scopes} {c : Context} {subject subject' : Value}
    {as : Arms Address} {m m' : Machine} {flags : List Bool}
    (h : Located starts p scopes (.arms n c subject as m))
    (hm : m.Renamed r starts flags m') (hmarks : r.Marks flags p.scopes c.scope)
    (hsubject : subject.Renamed r starts flags m.store subject') :
    (execArms n c subject as m).Agree r starts flags (Flow.Renamed r starts)
      (execArms n c subject' (as.rename r p scopes) m')

variable {r : Renaming} {starts : Place → Task → Prop} {n : Nat} {flags : List Bool} {p : Place}
  {scopes : Scopes} {c : Context} {m m' : Machine}

theorem renamed_literal {s : Store Value} (value : Literal) :
    value.value.Renamed r starts flags s value.value := by
  apply Value.Renamed.plain
  intro f
  cases value <;> simp [Literal.value]

theorem agree_eval_succ (hr : r.Suits starts) (ih : AgreeingEval r starts n) {e : Expr Address}
    (h : Located starts p scopes (.expr (n + 1) c e m)) (hm : m.Renamed r starts flags m')
    (hmarks : r.Marks flags p.scopes c.scope) :
    (eval (n + 1) c e m).Agree r starts flags (Value.Renamed r starts)
      (eval (n + 1) c (e.rename r p scopes) m') := by
  rw [eval, eval]
  refine agree_guard hm fun hroom => ?_
  cases e with
  | literal value => exact agree_done hm (renamed_literal value)
  | reference name address => exact agree_read hr h hm hmarks
  | grouping inner => exact ih.eval (h.inside hroom .grouping) hm hmarks
  | assign name value address =>
    exact (ih.eval (h.inside hroom .assign) hm hmarks).bind
      fun v m₁ v' m₁' flags₁ _ hflags hm₁ hv =>
      agree_write hr h hm₁ (hmarks.mono hflags) hv
  | unary operator right =>
    refine (ih.eval (h.inside hroom .unary) hm hmarks).bind
      fun v m₁ v' m₁' flags₁ _ hflags hm₁ hv => ?_
    rw [hv.alike.unary_eq]
    exact agree_ofExcept hm₁ (fun f => unary_ne_closure) fun name => unary_ne_undefined
  | conditional condition yes no =>
    refine (ih.eval (h.inside hroom .condition) hm hmarks).bind
      fun v m₁ v' m₁' flags₁ hcondition hflags hm₁ hv => ?_
    have hmarks₁ := hmarks.mono hflags
    rw [hv.alike.isTruthy_eq]
    cases htrue : v.isTruthy with
    | true => exact ih.eval (h.inside hroom (.yes hcondition htrue)) hm₁ hmarks₁
    | false => exact ih.eval (h.inside hroom (.no hcondition htrue)) hm₁ hmarks₁
  | binary left operator right =>
    refine (ih.eval (h.inside hroom .left) hm hmarks).bind
      fun l m₁ l' m₁' flags₁ hleft hflags hm₁ hl => ?_
    have hmarks₁ := hmarks.mono hflags
    rw [hl.alike.isTruthy_eq]
    split
    next hk =>
      cases htrue : l.isTruthy with
      | true =>
        exact ih.eval (h.inside hroom (.right hleft (fun _ => htrue) (by simp [hk]))) hm₁ hmarks₁
      | false => exact agree_done hm₁ hl
    next hk =>
      cases htrue : l.isTruthy with
      | true => exact agree_done hm₁ hl
      | false =>
        exact ih.eval (h.inside hroom (.right hleft (by simp [hk]) fun _ => htrue)) hm₁ hmarks₁
    next hand hor =>
      refine (ih.eval (h.inside hroom (.right hleft (fun hk => absurd hk hand)
        fun hk => absurd hk hor)) hm₁ hmarks₁).bind
          fun w m₂ w' m₂' flags₂ hright hflags₁ hm₂ hw => ?_
      have hkeeps := (keepingEval n).eval (fun _ => True) c.deeper right m₁
      rw [hright] at hkeeps
      exact agree_binary hm₂ (hl.mono hflags₁ hkeeps) hw
  | call callee paren arguments =>
    refine (ih.eval (h.inside hroom .callee) hm hmarks).bind
      fun v m₁ v' m₁' flags₁ hcallee hflags hm₁ hv => ?_
    have hmarks₁ := hmarks.mono hflags
    rcases hv.callee with ⟨hnone, hnone'⟩ | ⟨f, f', hsome, hsome', hf⟩
    · rw [hnone, hnone']
      exact agree_stopped hm₁ (.same fun name => by simp)
    · rw [hsome, hsome']
      refine (ih.evalAll (h.inside hroom (.arguments hcallee hsome)) hm₁ hmarks₁).bind
        fun vs m₂ vs' m₂' flags₂ harguments hflags₁ hm₂ hvs => ?_
      have hkeeps := (keepingEval n).evalAll (fun _ => True) c.deeper arguments m₁
      rw [harguments] at hkeeps
      exact ih.call (h.inside hroom (.call hcallee hsome harguments)) hm₂ (hf.mono hflags₁ hkeeps)
        hvs

/-- Both runs enter the scope with the same number. -/
theorem agree_enter (hm : m.Renamed r starts flags m') (outer : Scope) (here : Bool) :
    (m'.enter outer).1 = (m.enter outer).1 ∧
      (m.enter outer).2.Renamed r starts (flags ++ [here]) (m'.enter outer).2 := by
  refine ⟨?_, hm.store.grow here, hm.closures, hm.readings, hm.printed⟩
  unfold Machine.enter Store.next
  rw [hm.store.size_eq]

theorem marks_enter {q : Place} {ps : List Place} {outer : Scope}
    (hm : m.Renamed r starts flags m') (hmarks : r.Marks flags ps outer) :
    r.Marks (flags ++ [decide (q = r.scope)]) (q :: ps) (m.enter outer).1 := by
  refine .inner ?_ (hmarks.mono (List.prefix_append _ _))
  rw [← hm.store.size]
  simp

theorem renamed_result {s : Store Value} {flow flow' : Flow}
    (h : flow.Renamed r starts flags s flow') :
    flow.result.Renamed r starts flags s flow'.result := by
  cases h with
  | normal | jump => exact .plain fun f => by simp [Flow.result]
  | give hv => exact hv

/-- The parameters of a closure are different variables, and none has the new name. -/
theorem Renaming.Suits.params_differ (hr : r.Suits starts) {f : Closure} {q : Place}
    {outer : Scopes} {d : Task} {m₀ : Machine} (hd : Located starts q outer d)
    (hmakes : d.Makes f m₀) :
    (f.params.map Token.lexeme).Nodup ∧ ∀ x ∈ f.params, x.lexeme ≠ r.new := by
  cases hmakes with
  | intro =>
    refine ⟨(hr.located_fits hd).resolved.2.2.1, fun x hx he => (hr.located_spared hd).fresh ?_⟩
    rw [← he]
    exact List.mem_cons_of_mem _ (List.mem_append_left _ (List.mem_map_of_mem hx))

/-- A call of a closure and of the same closure, renamed. -/
theorem agree_closure (hr : r.Suits starts) (ih : AgreeingEval r starts n) {paren : Token}
    {f : Closure} {vs vs' : List Value} {q : Place} {outer : Scopes} {d : Task} {m₀ : Machine}
    (h : Located starts p scopes (.call (n + 1) c paren (.closure f) vs m))
    (hm : m.Renamed r starts flags m') (hd : Located starts q outer d) (hmakes : d.Makes f m₀)
    (hbefore : m₀.store.Before m.store) (hmarks : r.Marks flags q.scopes f.scope)
    (hvs : List.Forall₂ (Value.Renamed r starts flags m.store) vs vs') :
    (call (n + 1) c paren (.closure f) vs m).Agree r starts flags (Value.Renamed r starts)
      (call (n + 1) c paren (.closure (r.closure q outer f)) vs' m') := by
  have hlen : vs'.length = vs.length := hvs.length_eq.symm
  have harity : (Callee.closure (r.closure q outer f)).arity = (Callee.closure f).arity :=
    List.length_map _
  obtain ⟨hnodup, hfresh⟩ := hr.params_differ hd hmakes
  unfold call
  rw [hlen, harity]
  split
  · exact agree_stopped hm (.same fun name => by simp)
  next hargs =>
    refine agree_guard hm fun hroom => ?_
    obtain ⟨hscope, hm₁⟩ := agree_enter hm f.scope (decide (.body :: q = r.scope))
    have hprefix : flags <+: flags ++ [decide (.body :: q = r.scope)] :=
      List.prefix_append _ _
    have hmarks₁ := marks_enter (q := .body :: q) hm hmarks
    have hgrow : m.store.Before (m.enter f.scope).2.store := Store.keeps_grow _
    have hsame : (r.closure q outer f).scope = f.scope := rfl
    dsimp only
    rw [hsame, hscope]
    apply Outcome.Agree.widen hprefix
    have hparams := agree_defineAll hm₁ hmarks₁.head hfresh hnodup
      (fun x _ => m.binds_enter f.scope x.lexeme) (hvs.imp fun _ _ hv => hv.mono hprefix hgrow)
    refine hparams.bind fun _ m₂ _ m₂' flags₂ hdone hflags hm₂ _ => ?_
    have hbody := h.body (.intro (Decidable.not_not.1 hargs) hroom hdone) hd hmakes hbefore
    refine (ih.execAll hbody hm₂ (hmarks₁.mono hflags)).bind
      fun flow m₃ flow' m₃' flags₃ _ _ hm₃ hflow => ?_
    exact agree_done hm₃ (renamed_result hflow)

theorem agree_call_succ (hr : r.Suits starts) (ih : AgreeingEval r starts n) {paren : Token}
    {f f' : Callee} {vs vs' : List Value}
    (h : Located starts p scopes (.call (n + 1) c paren f vs m)) (hm : m.Renamed r starts flags m')
    (hf : f.value.Renamed r starts flags m.store f'.value)
    (hvs : List.Forall₂ (Value.Renamed r starts flags m.store) vs vs') :
    (call (n + 1) c paren f vs m).Agree r starts flags (Value.Renamed r starts)
      (call (n + 1) c paren f' vs' m') := by
  cases f with
  | native f =>
    cases f' with
    | closure f' => cases hf
    | native f' =>
      obtain rfl : f = f' := by cases hf; rfl
      unfold call
      rw [hvs.length_eq]
      split
      · exact agree_stopped hm (.same fun name => by simp)
      · exact agree_guard hm fun _ => agree_native hm f hvs
  | closure f =>
    cases f' with
    | native f' => cases hf
    | closure f' =>
      cases hf with
      | plain hplain => exact absurd rfl (hplain f)
      | closure hd hmakes hbefore hmarks =>
        exact agree_closure hr ih h hm hd hmakes hbefore hmarks hvs

/-- What is declared next in a scope is not bound there yet. -/
theorem Env.free {q : Place} {scope : Scope} {s : Store Value} {name : Token}
    (h : Env starts p scopes scope s) (hclash : scopes.clashes name = false)
    (hq : p.scopes.head? = some q) : s.binds scope name.lexeme = false := by
  have hnames := h.names
  cases scopes with
  | nil => exact absurd rfl (Scopes.ne_nil_of_head h.length hq)
  | cons names outer =>
    cases scope with
    | root f => exact hnames.elim
    | inner f outside =>
      rw [← Bool.not_eq_true]
      intro hbinds
      have hbound := Names.binds_iff.2 (.inl ((hnames.2.1 name.lexeme).1 hbinds))
      rw [Scopes.clashes, hbound] at hclash
      cases hclash

theorem agree_declare {name : Token} {v v' : Value} (hm : m.Renamed r starts flags m')
    (hmarks : r.Marks flags p.scopes c.scope) (hname : name.lexeme ≠ r.new)
    (henv : Env starts p scopes c.scope m.store) (hclash : scopes.clashes name = false)
    (hv : ∀ s, m.store.define c.scope name v = .ok s → v.Renamed r starts flags s v') :
    ((m.define c.scope name v).bind fun _ m => Outcome.done Flow.normal m).Agree r starts flags
      (Flow.Renamed r starts)
      ((m'.define c.scope (r.declared p name) v').bind fun _ m => .done .normal m) := by
  have hdefine := agree_define hm hmarks.head (fun _ => hname)
    (fun hhere => henv.free hclash (of_decide_eq_true hhere)) hv
  exact hdefine.bind fun _ _ _ _ _ _ _ hm₁ _ => agree_done hm₁ .normal

theorem agree_exec_succ (hr : r.Suits starts) (ih : AgreeingEval r starts n) {st : Stmt Address}
    (h : Located starts p scopes (.stmt (n + 1) c st m)) (hm : m.Renamed r starts flags m')
    (hmarks : r.Marks flags p.scopes c.scope) :
    (exec (n + 1) c st m).Agree r starts flags (Flow.Renamed r starts)
      (exec (n + 1) c (st.rename r p scopes) m') := by
  rw [exec, exec]
  refine agree_guard hm fun hroom => ?_
  have hfits := hr.located_fits h
  have hspared := hr.located_spared h
  cases st with
  | block body =>
    obtain ⟨hscope, hm₁⟩ := agree_enter hm c.scope (decide (.block :: p = r.scope))
    have hmarks₁ := marks_enter (q := .block :: p) hm hmarks
    simp only [Stmt.rename, Context.scope_deeper, hscope]
    exact (ih.execAll (h.inside hroom .block) hm₁ hmarks₁).widen (List.prefix_append _ _)
  | jump j keyword => exact agree_done hm (.jump j)
  | doLoop body condition => exact ih.execDo (h.inside hroom .doLoop) hm hmarks
  | expression value =>
    exact (ih.eval (h.inside hroom .expression) hm hmarks).bind fun _ _ _ _ _ _ _ hm₁ _ =>
      agree_done hm₁ .normal
  | function name params body =>
    let f : Closure := ⟨m.closures, name, params, body, c.scope⟩
    have hname : name.lexeme ≠ r.new := fun he => hspared.fresh (he ▸ List.mem_cons_self)
    have hm₁ : Machine.Renamed r starts flags { m with closures := m.closures + 1 }
        { m' with closures := m'.closures + 1 } :=
      ⟨hm.store, congrArg (· + 1) hm.closures, hm.readings, hm.printed⟩
    have hclosure : (⟨m'.closures, r.declared p name, params.map (r.declared (.body :: p)),
        Stmt.renameAll r (.body :: p) ((scopes.define name).enter params) body, c.scope⟩ :
          Closure) = r.closure p scopes f := by
      rw [hm.closures]
      rfl
    simp only [Stmt.rename, Context.scope_deeper, hclosure]
    exact agree_declare hm₁ hmarks hname hfits.env hfits.resolved.2.1 fun s hs =>
      .closure h (Task.makes_function hroom hs) (Store.Keeps.refl _ s) hmarks
  | ifThen condition yes =>
    refine (ih.eval (h.inside hroom .ifCondition) hm hmarks).bind
      fun v m₁ v' m₁' flags₁ hcondition hflags hm₁ hv => ?_
    rw [hv.alike.isTruthy_eq]
    cases htrue : v.isTruthy with
    | true => exact ih.exec (h.inside hroom (.ifThen hcondition htrue)) hm₁ (hmarks.mono hflags)
    | false => exact agree_done hm₁ .normal
  | ifElse condition yes no =>
    refine (ih.eval (h.inside hroom .elseCondition) hm hmarks).bind
      fun v m₁ v' m₁' flags₁ hcondition hflags hm₁ hv => ?_
    rw [hv.alike.isTruthy_eq]
    cases htrue : v.isTruthy with
    | true => exact ih.exec (h.inside hroom (.thenBranch hcondition htrue)) hm₁ (hmarks.mono hflags)
    | false =>
      exact ih.exec (h.inside hroom (.elseBranch hcondition htrue)) hm₁ (hmarks.mono hflags)
  | print value =>
    refine (ih.eval (h.inside hroom .print) hm hmarks).bind
      fun v m₁ v' m₁' flags₁ _ _ hm₁ hv => ?_
    have hprinted : (m₁'.printed.push v').map Value.print =
        (m₁.printed.push v).map Value.print := by
      rw [Array.map_push, Array.map_push, hm₁.printed, hv.print_eq hr]
    exact ⟨flags₁, List.prefix_refl _, ⟨hm₁.store, hm₁.closures, hm₁.readings, hprinted⟩, .normal⟩
  | give keyword value =>
    cases value with
    | none => exact agree_done hm (.give (.plain fun f => by simp))
    | some e =>
      exact (ih.eval (h.inside hroom .give) hm hmarks).bind fun _ _ _ _ _ _ _ hm₁ hv =>
        agree_done hm₁ (.give hv)
  | switch subject arms =>
    exact (ih.eval (h.inside hroom .subject) hm hmarks).bind
      fun v m₁ v' m₁' flags₁ hsubject hflags hm₁ hv =>
        ih.execArms (h.inside hroom (.arms hsubject)) hm₁ (hmarks.mono hflags) hv
  | var name init =>
    have hname : name.lexeme ≠ r.new := fun he => hspared.fresh (he ▸ List.mem_cons_self)
    cases init with
    | none =>
      exact agree_declare hm hmarks hname hfits.env hfits.resolved.2.1
        fun s hs => .plain fun f => by simp
    | some e =>
      exact (ih.eval (h.inside hroom .initializer) hm hmarks).bind
        fun v m₁ v' m₁' flags₁ hdone hflags hm₁ hv =>
          agree_declare hm₁ (hmarks.mono hflags) hname (hfits.env.eval hdone) hfits.resolved.2.1
            fun s hs => renamed_define hv hs
  | loop condition body => exact ih.execLoop (h.inside hroom .loop) hm hmarks
  | loopStep condition body step => exact ih.execLoop (h.inside hroom .loopStep) hm hmarks

theorem agree_execLoop_succ (ih : AgreeingEval r starts n) {condition : Expr Address}
    {body : Stmt Address} {step : Option (Stmt Address)}
    (h : Located starts p scopes (.rounds (n + 1) c condition body step m))
    (hm : m.Renamed r starts flags m') (hmarks : r.Marks flags p.scopes c.scope) :
    (execLoop (n + 1) c condition body step m).Agree r starts flags (Flow.Renamed r starts)
      (execLoop (n + 1) c (condition.rename r (.child 0 :: p) scopes)
        (body.rename r (.child 1 :: p) scopes)
        (step.map (Stmt.rename r (.child 2 :: p) (body.declare scopes))) m') := by
  rw [execLoop, execLoop]
  refine (ih.eval (h.inside rfl .loopCondition) hm hmarks).bind
    fun v m₁ v' m₁' flags₁ hcondition hflags hm₁ hv => ?_
  have hmarks₁ := hmarks.mono hflags
  rw [hv.alike.isTruthy_eq]
  cases htrue : v.isTruthy with
  | false => exact agree_done hm₁ .normal
  | true =>
    refine (ih.exec (h.inside rfl (.loopBody hcondition htrue)) hm₁ hmarks₁).bind
      fun flow m₂ flow' m₂' flags₂ hbody hflags₁ hm₂ hflow => ?_
    have hmarks₂ := hmarks₁.mono hflags₁
    have hagain (hgo : flow = .normal ∨ flow = .jump .again) (hstep : step = none) :
        (execLoop n c condition body none m₂).Agree r starts flags₂ (Flow.Renamed r starts)
          (execLoop n c (condition.rename r (.child 0 :: p) scopes)
            (body.rename r (.child 1 :: p) scopes) none m₂') := by
      subst hstep
      exact ih.execLoop (h.inside rfl (.nextRound hcondition htrue hbody hgo)) hm₂ hmarks₂
    have hafter (hgo : flow = .normal ∨ flow = .jump .again) (st : Stmt Address)
        (hstep : step = some st) : ((exec n c st m₂).bind fun _ m =>
          execLoop n c condition body (some st) m).Agree r starts flags₂ (Flow.Renamed r starts)
          ((exec n c (st.rename r (.child 2 :: p) (body.declare scopes)) m₂').bind fun _ m =>
            execLoop n c (condition.rename r (.child 0 :: p) scopes)
              (body.rename r (.child 1 :: p) scopes)
              (some (st.rename r (.child 2 :: p) (body.declare scopes))) m) := by
      subst hstep
      exact (ih.exec (h.inside rfl (.step hcondition htrue hbody hgo)) hm₂ hmarks₂).bind
        fun _ _ _ _ _ hstep hflags₂ hm₃ _ =>
          ih.execLoop (h.inside rfl (.nextStep hcondition htrue hbody hgo hstep)) hm₃
            (hmarks₂.mono hflags₂)
    cases hflow with
    | normal => cases step with
      | none => exact hagain (.inl rfl) rfl
      | some st => exact hafter (.inl rfl) st rfl
    | give hw => exact agree_done hm₂ (.give hw)
    | jump j => cases j with
      | exit => exact agree_done hm₂ .normal
      | again => cases step with
        | none => exact hagain (.inr rfl) rfl
        | some st => exact hafter (.inr rfl) st rfl

theorem agree_execDo_succ (ih : AgreeingEval r starts n) {body : Stmt Address}
    {condition : Expr Address} (h : Located starts p scopes (.doRounds (n + 1) c body condition m))
    (hm : m.Renamed r starts flags m') (hmarks : r.Marks flags p.scopes c.scope) :
    (execDo (n + 1) c body condition m).Agree r starts flags (Flow.Renamed r starts)
      (execDo (n + 1) c (body.rename r (.child 0 :: p) scopes)
        (condition.rename r (.child 1 :: p) (body.declare scopes)) m') := by
  rw [execDo, execDo]
  refine (ih.exec (h.inside rfl .doBody) hm hmarks).bind
    fun flow m₁ flow' m₁' flags₁ hbody hflags hm₁ hflow => ?_
  have hmarks₁ := hmarks.mono hflags
  have hnext (hgo : flow = .normal ∨ flow = .jump .again) :
      ((eval n c condition m₁).bind fun v m =>
        if v.isTruthy then execDo n c body condition m else .done .normal m).Agree r starts flags₁
        (Flow.Renamed r starts)
        ((eval n c (condition.rename r (.child 1 :: p) (body.declare scopes)) m₁').bind fun v m =>
          if v.isTruthy then execDo n c (body.rename r (.child 0 :: p) scopes)
            (condition.rename r (.child 1 :: p) (body.declare scopes)) m
          else .done .normal m) := by
    refine (ih.eval (h.inside rfl (.doCondition hbody hgo)) hm₁ hmarks₁).bind
      fun v m₂ v' m₂' flags₂ hcondition hflags₁ hm₂ hv => ?_
    rw [hv.alike.isTruthy_eq]
    cases htrue : v.isTruthy with
    | true =>
      exact ih.execDo (h.inside rfl (.doRound hbody hgo hcondition htrue)) hm₂
        (hmarks₁.mono hflags₁)
    | false => exact agree_done hm₂ .normal
  cases hflow with
  | normal => exact hnext (.inl rfl)
  | give hw => exact agree_done hm₁ (.give hw)
  | jump j => cases j with
    | exit => exact agree_done hm₁ .normal
    | again => exact hnext (.inr rfl)

theorem agreeingEval (hr : r.Suits starts) (n : Nat) : AgreeingEval r starts n := by
  induction n with
  | zero => constructor <;> intros <;> exact agree_outOfFuel ‹_›
  | succ n ih =>
    refine ⟨agree_eval_succ hr ih, @fun p scopes c es m m' flags h hm hmarks => ?_,
      agree_call_succ hr ih, agree_exec_succ hr ih,
      @fun p scopes c ss m m' flags h hm hmarks => ?_, agree_execLoop_succ ih,
      agree_execDo_succ ih,
      @fun p scopes c subject subject' as m m' flags h hm hmarks hsubject => ?_⟩
    · cases es with
      | nil => exact agree_done hm .nil
      | cons e es =>
        refine (ih.eval (h.inside rfl .argument) hm hmarks).bind
          fun v m₁ v' m₁' flags₁ he hflags hm₁ hv => ?_
        have hkeeps := (keepingEval n).evalAll (fun _ => True) c es m₁
        refine (ih.evalAll (h.inside rfl (.moreArguments he)) hm₁ (hmarks.mono hflags)).bind
          fun vs m₂ vs' m₂' flags₂ hes hflags₁ hm₂ hvs => ?_
        rw [hes] at hkeeps
        exact agree_done hm₂ (.cons (hv.mono hflags₁ hkeeps) hvs)
    · cases ss with
      | nil => exact agree_done hm .normal
      | cons s ss =>
        rw [Stmt.renameAll, execAll, execAll]
        refine (ih.exec (h.inside rfl .first) hm hmarks).bind
          fun flow m₁ flow' m₁' flags₁ hs hflags hm₁ hflow => ?_
        cases hflow with
        | normal => exact ih.execAll (h.inside rfl (.others hs)) hm₁ (hmarks.mono hflags)
        | jump j => exact agree_done hm₁ (.jump j)
        | give hv => exact agree_done hm₁ (.give hv)
    · cases as with
      | done => exact agree_done hm .normal
      | otherwise body => exact ih.exec (h.inside rfl .otherwise) hm hmarks
      | case condition body rest =>
        rw [Arms.rename, execArms, execArms]
        refine (ih.eval (h.inside rfl .armCondition) hm hmarks).bind
          fun v m₁ v' m₁' flags₁ hcondition hflags hm₁ hv => ?_
        have hkeeps := (keepingEval n).eval (fun _ => True) c condition m
        rw [hcondition] at hkeeps
        have hsubject := hsubject.mono hflags hkeeps
        rw [hv.alike.isEqual_eq hsubject.alike]
        cases hequal : v.isEqual subject with
        | true => exact ih.exec (h.inside rfl (.armBody hcondition hequal)) hm₁ (hmarks.mono hflags)
        | false =>
          exact ih.execArms (h.inside rfl (.nextArm hcondition hequal)) hm₁ (hmarks.mono hflags)
            hsubject

theorem agree_execEach (hr : r.Suits starts) {ss : List (Stmt Address)}
    (h : Located starts p scopes (.program n c ss m)) (hm : m.Renamed r starts flags m')
    (hmarks : r.Marks flags p.scopes c.scope) :
    (execEach n c ss m).Agree r starts flags (fun _ _ _ _ => True)
      (execEach n c (Stmt.renameAll r p scopes ss) m') := by
  induction ss generalizing p scopes m m' flags with
  | nil => exact agree_done hm trivial
  | cons s ss ih =>
    exact ((agreeingEval hr n).exec (h.inside rfl .topFirst) hm hmarks).bind
      fun flow m₁ flow' m₁' flags₁ hs hflags hm₁ _ =>
        ih (h.inside rfl (.topOthers hs)) hm₁ (hmarks.mono hflags)

end Scriptlet

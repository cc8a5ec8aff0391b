import Scriptlet.Proofs.Evaluation.Alike
import Scriptlet.Proofs.Interpreter.Run
import Scriptlet.Proofs.Scoping.Declared
import Scriptlet.Proofs.Store.Chains

/-! Whatever tree the interpreter runs, its scopes are all there: each has its frame, and the scope
around it was made before it. -/
namespace Scriptlet

/-- If the value is a closure, its scope is one of these. -/
def Value.Held (scopes : List Scope) (v : Value) : Prop :=
  ∀ g, v = .closure g → g.scope ∈ scopes

/-- The scopes of all closures in the variables are among these. -/
def Store.Held (scopes : List Scope) (s : Store Value) : Prop :=
  ∀ n z v, (s.frame n).lookup z = some v → v.Held scopes

/-- Scopes are numbered as they were made, each after the one around it. -/
structure Forest.Sound (f : Forest) : Prop where
  size : f.scopes.length = f.store.frames.size
  numbered (i : Nat) (scope : Scope) (h : f.scopes[i]? = some scope) : scope.frame = i
  outer (n : Nat) (outer : Scope) (h : .inner n outer ∈ f.scopes) :
    outer ∈ f.scopes ∧ outer.frame < n
  held : f.store.Held f.scopes

def Interpreter.forest (s : Interpreter) : Forest := ⟨s.machine.store, s.scopes⟩

/-- The interpreter knows all scopes that it can come to. -/
structure Interpreter.Sound (s : Interpreter) : Prop where
  forest : s.forest.Sound
  globals : s.globals = Machine.globals
  globals_mem : s.globals ∈ s.scopes
  scope_mem : s.scope ∈ s.scopes

variable {scopes scopes' : List Scope} {s : Store Value} {v w : Value}

theorem Value.Held.mono (h : v.Held scopes) (hscopes : scopes <+: scopes') : v.Held scopes' :=
  fun g hg => hscopes.subset (h g hg)

theorem held_of_ne (h : ∀ g, v ≠ .closure g) : v.Held scopes := fun g hg => absurd hg (h g)

theorem Store.Held.mono (h : s.Held scopes) (hscopes : scopes <+: scopes') : s.Held scopes' :=
  fun n z v hv => (h n z v hv).mono hscopes

theorem Store.Held.grow (h : s.Held scopes) : s.grow.Held scopes := by
  intro n z v hv
  rw [Store.frame_grow] at hv
  exact h n z v hv

theorem Store.Held.add (h : s.Held scopes) (scope : Scope) (name : String) (hv : v.Held scopes) :
    (s.add scope name v).Held scopes := by
  intro n z w hw
  rcases Store.lookup_of_add hw with rfl | hw
  · exact hv
  · exact h n z w hw

theorem Store.Held.set (h : s.Held scopes) (scope : Scope) (name : String) (hv : v.Held scopes) :
    (s.set scope name v).Held scopes := by
  intro n z w hw
  rcases Store.lookup_of_set hw with rfl | hw
  · exact hv
  · exact h n z w hw

theorem Forest.Sound.ordered {f : Forest} (h : f.Sound) : f.Ordered :=
  ⟨h.size, h.numbered, h.outer⟩

/-- Another scope inside one that is there. -/
theorem Forest.Sound.grow {f : Forest} (h : f.Sound) {outer : Scope} (houter : outer ∈ f.scopes) :
    (f.grow (some outer)).Sound := by
  have hordered : (f.grow (some outer)).Ordered := h.ordered.grow fun o ho => by
    rwa [← Option.some.inj ho]
  exact ⟨hordered.size, hordered.numbered, hordered.outer,
    h.held.grow.mono (List.prefix_append _ _)⟩

/-- A change of the variables, but not of the scopes. -/
theorem Interpreter.Sound.update {s : Interpreter} (h : s.Sound) {m : Machine}
    (hsize : m.store.frames.size = s.machine.store.frames.size)
    (hheld : m.store.Held s.scopes) : { s with machine := m }.Sound :=
  ⟨⟨h.forest.size.trans hsize.symm, h.forest.numbered, h.forest.outer, hheld⟩, h.globals,
    h.globals_mem, h.scope_mem⟩

/-- The step makes no scope and gets hold of none but these; its result is of this sort. -/
def Outcome.Holds {α : Type} (o : Outcome α) (scopes : List Scope) (m : Machine)
    (V : α → Prop) : Prop :=
  (o.Leaves fun m' => m'.store.frames.size = m.store.frames.size ∧ m'.store.Held scopes) ∧
    ∀ a m', o = .done a m' → V a

/-- If these scopes are there already, the step leaves the interpreter sound, and gives a result of
this sort. -/
def Step.Safe {α : Type} (t : Step α) (scopes : List Scope) (V : List Scope → α → Prop) : Prop :=
  ∀ s, s.Sound → scopes <+: s.scopes →
    (t.run s).state.Sound ∧ ∀ a s', t.run s = .done a s' → V s'.scopes a

namespace Step.Safe

variable {α β : Type} {t : Step α} {V : List Scope → α → Prop} {W : List Scope → β → Prop}

theorem pure {a : α} (h : ∀ scopes', scopes <+: scopes' → V scopes' a) :
    (Step.pure a).Safe scopes V := by
  intro s hs hscopes
  refine ⟨hs, fun b s' hdone => ?_⟩
  obtain ⟨rfl, rfl⟩ := Course.done.inj hdone
  exact h _ hscopes

theorem stop (why : Stop) : (Step.stop why : Step α).Safe scopes V := fun _ hs _ => ⟨hs, nofun⟩

theorem cut : (Step.cut : Step α).Safe scopes V := fun _ hs _ => ⟨hs, nofun⟩

theorem bind {f : α → Step β} (ht : t.Safe scopes V)
    (hf : ∀ scopes' a, scopes <+: scopes' → V scopes' a → (f a).Safe scopes' W) :
    (t.bind f).Safe scopes W := by
  intro s hs hscopes
  obtain ⟨hsound, hV⟩ := ht s hs hscopes
  have hlater := t.later s
  rw [run_bind]
  cases hrun : t.run s with
  | done a s' =>
    rw [hrun] at hsound hlater
    exact hf _ a (hscopes.trans hlater.scopes) (hV a s' hrun) s' hsound (List.prefix_refl _)
  | stopped why s' | cut s' =>
    rw [hrun] at hsound
    exact ⟨hsound, nofun⟩

theorem ite {c : Prop} [Decidable c] {t' : Step α} (ht : t.Safe scopes V)
    (ht' : t'.Safe scopes V) : (if c then t else t').Safe scopes V := by
  split
  · exact ht
  · exact ht'

theorem guard {k : Stack} {f : Stack → Step α} (hf : (f k).Safe scopes V) :
    (Step.guard k f).Safe scopes V := by
  unfold Step.guard
  split
  · exact stop _
  · exact hf

theorem ofExcept {e : Except Stop α}
    (h : ∀ a, e = .ok a → ∀ scopes', scopes <+: scopes' → V scopes' a) :
    (Step.ofExcept e).Safe scopes V := by
  cases e with
  | ok a => exact pure (h a rfl)
  | error why => exact stop why

/-- A step that changes variables and no scopes. -/
theorem lift {o : Interpreter → Outcome α} {hquiet : ∀ s, (o s).Quiet s.machine}
    (h : ∀ s, s.Sound → scopes <+: s.scopes → (o s).Holds s.scopes s.machine (V s.scopes)) :
    (Step.lift o hquiet).Safe scopes V := by
  intro s hs hscopes
  obtain ⟨hleaves, hV⟩ := h s hs hscopes
  rw [run_lift]
  cases ho : o s with
  | stopped why m | outOfFuel m =>
    rw [ho] at hleaves
    exact ⟨hs.update hleaves.1 hleaves.2, nofun⟩
  | done a m =>
    rw [ho] at hleaves
    refine ⟨hs.update hleaves.1 hleaves.2, fun b s' hdone => ?_⟩
    obtain ⟨rfl, rfl⟩ := Course.done.inj hdone
    exact hV _ m ho

theorem scope : Step.scope.Safe scopes fun scopes' scope => scope ∈ scopes' := by
  intro s hs hscopes
  refine ⟨hs, fun a s' hdone => ?_⟩
  obtain ⟨rfl, rfl⟩ := Course.done.inj hdone
  exact hs.scope_mem

theorem new {outer : Scope} (houter : outer ∈ scopes) :
    (Step.new outer).Safe scopes fun scopes' scope => scope ∈ scopes' := by
  intro s hs hscopes
  refine ⟨⟨hs.forest.grow (hscopes.subset houter), hs.globals,
    List.mem_append_left _ hs.globals_mem, List.mem_append_left _ hs.scope_mem⟩,
    fun a s' hdone => ?_⟩
  obtain ⟨rfl, rfl⟩ := Course.done.inj hdone
  exact List.mem_append_right _ (List.mem_singleton_self _)

/-- The scope that the interpreter comes back to is still there. -/
theorem within {scope : Scope} (hscope : scope ∈ scopes) (ht : t.Safe scopes V) :
    (Step.within scope t).Safe scopes V := by
  intro s hs hscopes
  have hlater := t.later { s with scope }
  obtain ⟨hsound, hV⟩ :=
    ht { s with scope } ⟨hs.forest, hs.globals, hs.globals_mem, hscopes.subset hscope⟩ hscopes
  have hback := hlater.scopes.subset hs.scope_mem
  rw [run_within, Course.state_back]
  refine ⟨⟨hsound.forest, hsound.globals, hsound.globals_mem, hback⟩, fun a s' hdone => ?_⟩
  cases hrun : t.run { s with scope } with
  | done b s'' =>
    rw [hrun] at hdone
    obtain ⟨rfl, rfl⟩ := Course.done.inj hdone
    exact hV _ s'' hrun
  | stopped | cut =>
    rw [hrun] at hdone
    cases hdone

theorem print (v : Value) : (Step.print v).Safe scopes fun _ _ => True :=
  fun _ hs _ => ⟨hs.update rfl hs.forest.held, fun _ _ _ => trivial⟩

end Step.Safe

/-! Access to variables. -/

namespace Store.Held

variable {scope : Scope} {name : Token} {d : Int} {store : Store Value}

theorem get (h : s.Held scopes) (hv : s.get scope name = .ok v) : v.Held scopes := by
  obtain ⟨owner, hread⟩ := Store.read_of_get hv
  exact h _ _ v hread

theorem getAt (h : s.Held scopes) (hv : s.getAt scope d name = .ok v) : v.Held scopes := by
  obtain ⟨owner, hread⟩ := Store.read_of_getAt hv
  exact h _ _ v hread

theorem assign (h : s.Held scopes) (hv : v.Held scopes)
    (hdone : s.assign scope name v = .ok store) :
    store.frames.size = s.frames.size ∧ store.Held scopes := by
  obtain ⟨owner, rfl⟩ := Store.set_of_assign hdone
  exact ⟨by simp [Store.set], h.set owner name.lexeme hv⟩

theorem assignAt (h : s.Held scopes) (hv : v.Held scopes)
    (hdone : s.assignAt scope d name v = .ok store) :
    store.frames.size = s.frames.size ∧ store.Held scopes := by
  obtain ⟨owner, rfl⟩ := Store.set_of_assignAt hdone
  exact ⟨by simp [Store.set], h.set owner name.lexeme hv⟩

theorem define (h : s.Held scopes) (hv : v.Held scopes)
    (hdone : s.define scope name v = .ok store) :
    store.frames.size = s.frames.size ∧ store.Held scopes := by
  obtain ⟨-, rfl⟩ := Store.define_eq_ok.1 hdone
  exact ⟨by simp [Store.add], h.add scope name.lexeme hv⟩

end Store.Held

namespace Machine

variable {α : Type} {m : Machine} {V : α → Prop}

theorem holds_ofExcept {e : Except Stop α} (hm : m.store.Held scopes)
    (h : ∀ a, e = .ok a → V a) : (Outcome.ofExcept m e).Holds scopes m V := by
  cases e with
  | error why => exact ⟨⟨rfl, hm⟩, nofun⟩
  | ok a =>
    refine ⟨⟨rfl, hm⟩, fun b m' hdone => ?_⟩
    obtain ⟨rfl, rfl⟩ := Outcome.done.inj hdone
    exact h _ rfl

theorem holds_update {a : α} {e : Except Stop (Store Value)} (hm : m.store.Held scopes)
    (ha : V a) (h : ∀ store, e = .ok store →
      store.frames.size = m.store.frames.size ∧ store.Held scopes) :
    (m.update a e).Holds scopes m V := by
  cases e with
  | error why => exact ⟨⟨rfl, hm⟩, nofun⟩
  | ok store =>
    refine ⟨h store rfl, fun b m' hdone => ?_⟩
    obtain ⟨rfl, rfl⟩ := Outcome.done.inj hdone
    exact ha

theorem holds_define (scope : Scope) (name : Token) (hm : m.store.Held scopes)
    (hv : v.Held scopes) : (m.define scope name v).Holds scopes m fun _ => True :=
  holds_update hm trivial fun _ => hm.define hv

theorem holds_defineAll (scope : Scope) (ps : List Token) {vs : List Value}
    (hm : m.store.Held scopes) (hvs : ∀ v ∈ vs, v.Held scopes) :
    (defineAll scope ps vs m).Holds scopes m fun _ => True := by
  refine ⟨?_, fun _ _ _ => trivial⟩
  induction ps generalizing vs m with
  | nil => exact ⟨rfl, hm⟩
  | cons p ps ih =>
    cases vs with
    | nil => exact ⟨rfl, hm⟩
    | cons v vs =>
      have hfirst := (holds_define scope p hm (hvs v List.mem_cons_self)).1
      unfold defineAll
      cases hdefine : m.define scope p v with
      | stopped why m' | outOfFuel m' =>
        rw [hdefine] at hfirst
        exact hfirst
      | done a m' =>
        rw [hdefine] at hfirst
        have hrest := ih hfirst.2 fun w hw => hvs w (List.mem_cons_of_mem _ hw)
        rw [Outcome.bind_done]
        cases hm' : defineAll scope ps vs m' with
        | stopped why m'' | done a m'' | outOfFuel m'' =>
          rw [hm'] at hrest
          exact ⟨hrest.1.trans hfirst.1, hrest.2⟩

end Machine

namespace Step.Safe

theorem read (name : Token) (address : Address) :
    (Step.read name address).Safe scopes Value.Held := by
  refine lift fun s hs _ => Machine.holds_ofExcept hs.forest.held fun v hv => ?_
  cases address with
  | global => exact hs.forest.held.get hv
  | up d => exact hs.forest.held.getAt hv

theorem write (name : Token) (address : Address) (hv : v.Held scopes) :
    (Step.write name v address).Safe scopes Value.Held := by
  refine lift fun s hs hscopes =>
    Machine.holds_update hs.forest.held (hv.mono hscopes) fun store hstore => ?_
  cases address with
  | global => exact hs.forest.held.assign (hv.mono hscopes) hstore
  | up d => exact hs.forest.held.assignAt (hv.mono hscopes) hstore

theorem define (name : Token) (hv : v.Held scopes) :
    (Step.define name v).Safe scopes fun _ _ => True :=
  lift fun s hs hscopes => Machine.holds_define s.scope name hs.forest.held (hv.mono hscopes)

theorem defineAll (scope : Scope) (ps : List Token) {vs : List Value}
    (hvs : ∀ v ∈ vs, v.Held scopes) :
    (Step.defineAll scope ps vs).Safe scopes fun _ _ => True :=
  lift fun _ hs hscopes =>
    Machine.holds_defineAll scope ps hs.forest.held fun v hv => (hvs v hv).mono hscopes

theorem native (k : Stack) (f : Native) (vs : List Value) :
    (Step.native k f vs).Safe scopes Value.Held := by
  refine lift fun s hs _ => ⟨?_, fun v m hdone => ?_⟩
  · have hstore : (f.after s.machine).store = s.machine.store := f.store_after s.machine
    exact ⟨congrArg (·.frames.size) hstore, hstore ▸ hs.forest.held⟩
  · obtain ⟨rfl, -⟩ := Outcome.done.inj hdone
    exact held_of_ne fun g => apply_ne_closure _ f vs g

/-- The closure that a declaration makes has the current scope. -/
theorem function (name : Token) (params : List Token) (body : List (Stmt Address)) :
    (Step.function name params body).Safe scopes fun _ _ => True := by
  refine lift fun s hs _ => ?_
  have hclosure : (Value.closure ⟨s.machine.closures, name, params, body, s.scope⟩).Held
      s.scopes := by
    intro g hg
    obtain rfl := Value.closure.inj hg
    exact hs.scope_mem
  exact Machine.holds_define (m := { s.machine with closures := s.machine.closures + 1 })
    s.scope name hs.forest.held hclosure

end Step.Safe

/-! The trees. -/

def Flow.Held (scopes : List Scope) (flow : Flow) : Prop := ∀ v, flow = .give v → v.Held scopes

def Callee.Held (scopes : List Scope) (f : Callee) : Prop :=
  ∀ g, f = .closure g → g.scope ∈ scopes

/-- With this much fuel all evaluations are safe. -/
structure SafeEval (n : Nat) : Prop where
  eval (scopes : List Scope) (k : Stack) (e : Expr Address) :
    (Interpreter.eval n k e).Safe scopes Value.Held
  evalAll (scopes : List Scope) (k : Stack) (es : List (Expr Address)) :
    (Interpreter.evalAll n k es).Safe scopes fun scopes vs => ∀ v ∈ vs, v.Held scopes
  call (scopes : List Scope) (k : Stack) (paren : Token) (f : Callee)
    (vs : List Value) (hf : f.Held scopes) (hvs : ∀ v ∈ vs, v.Held scopes) :
    (Interpreter.call n k paren f vs).Safe scopes Value.Held
  exec (scopes : List Scope) (k : Stack) (st : Stmt Address) :
    (Interpreter.exec n k st).Safe scopes Flow.Held
  execAll (scopes : List Scope) (k : Stack) (ss : List (Stmt Address)) :
    (Interpreter.execAll n k ss).Safe scopes Flow.Held
  execLoop (scopes : List Scope) (k : Stack) (condition : Expr Address)
    (body : Stmt Address) (step : Option (Stmt Address)) :
    (Interpreter.execLoop n k condition body step).Safe scopes Flow.Held
  execDo (scopes : List Scope) (k : Stack) (body : Stmt Address)
    (condition : Expr Address) :
    (Interpreter.execDo n k body condition).Safe scopes Flow.Held
  execArms (scopes : List Scope) (k : Stack) (subject : Value)
    (as : Arms Address) : (Interpreter.execArms n k subject as).Safe scopes Flow.Held

section

variable {n : Nat} (scopes : List Scope) (k : Stack)

theorem held_literal (value : Literal) : value.value.Held scopes :=
  held_of_ne fun g => by cases value <;> simp [Literal.value]

theorem held_nil : Value.nil.Held scopes := nofun

theorem held_normal : Flow.normal.Held scopes := nofun

theorem held_jump (j : Jump) : (Flow.jump j).Held scopes := nofun

theorem held_give (hv : v.Held scopes) : (Flow.give v).Held scopes := by
  intro w hw
  exact Flow.give.inj hw ▸ hv

theorem Flow.Held.result {flow : Flow} (h : flow.Held scopes) : flow.result.Held scopes := by
  cases flow with
  | give v => exact h v rfl
  | normal | jump => exact held_nil scopes

theorem safe_normal : (Step.pure Flow.normal).Safe scopes Flow.Held :=
  .pure fun _ _ => held_normal _

theorem safe_eval_succ (ih : SafeEval n) (e : Expr Address) :
    (Interpreter.eval (n + 1) k e).Safe scopes Value.Held := by
  rw [Interpreter.eval]
  refine .guard ?_
  generalize k.take treeFrames = k
  cases e with
  | literal value => exact .pure fun _ _ => held_literal _ value
  | reference name address => exact .read name address
  | grouping inner => exact ih.eval scopes k inner
  | assign name value address =>
    exact (ih.eval scopes k value).bind fun _ v _ hv => .write name address hv
  | unary operator right =>
    refine (ih.eval scopes k right).bind fun _ v _ _ => .ofExcept fun w hw _ _ => ?_
    exact held_of_ne fun g hg => absurd (hg ▸ hw) unary_ne_closure
  | conditional condition yes no =>
    exact (ih.eval scopes k condition).bind fun scopes v _ _ =>
      .ite (ih.eval scopes k yes) (ih.eval scopes k no)
  | binary left operator right =>
    refine (ih.eval scopes k left).bind fun scopes l _ hl => ?_
    have hl : (Step.pure l).Safe scopes Value.Held := .pure fun _ h => hl.mono h
    split
    · exact .ite (ih.eval scopes k right) hl
    · exact .ite hl (ih.eval scopes k right)
    · refine (ih.eval scopes k right).bind fun scopes r _ hr =>
        .ofExcept fun w hw scopes' hscopes g hg => ?_
      exact hr.mono hscopes g (binary_eq_closure (hg ▸ hw)).2
  | call callee paren arguments =>
    refine (ih.eval scopes k callee).bind fun scopes v _ hv => ?_
    cases hf : Callee.ofValue? v with
    | none => exact .stop _
    | some f =>
      have hf : f.Held scopes := by
        intro g hg
        subst hg
        cases v with
        | closure g' =>
          obtain rfl := Callee.closure.inj (Option.some.inj hf)
          exact hv _ rfl
        | _ => simp [Callee.ofValue?] at hf
      exact (ih.evalAll scopes k arguments).bind fun scopes' vs hscopes hvs =>
        ih.call scopes' k paren f vs (fun g hg => hscopes.subset (hf g hg)) hvs

theorem safe_call_succ (ih : SafeEval n) (paren : Token) (f : Callee) (vs : List Value)
    (hf : f.Held scopes) (hvs : ∀ v ∈ vs, v.Held scopes) :
    (Interpreter.call (n + 1) k paren f vs).Safe scopes Value.Held := by
  unfold Interpreter.call
  refine .ite (.stop _) (.guard ?_)
  cases f with
  | native f => exact .native _ f vs
  | closure f =>
    refine (Step.Safe.new (hf f rfl)).bind fun scopes₁ scope hscopes hscope => ?_
    refine (Step.Safe.defineAll scope f.params fun v hv => (hvs v hv).mono hscopes).bind
      fun scopes₂ _ hscopes₁ _ => ?_
    have hbody := (ih.execAll scopes₂ (k.enter callFrames paren) f.body).within
      (hscopes₁.subset hscope)
    exact hbody.bind fun _ flow _ hflow => .pure fun _ h => (Flow.Held.result _ hflow).mono h

theorem safe_exec_succ (ih : SafeEval n) (st : Stmt Address) :
    (Interpreter.exec (n + 1) k st).Safe scopes Flow.Held := by
  rw [Interpreter.exec]
  refine .guard ?_
  generalize k.take treeFrames = k
  cases st with
  | block body =>
    refine Step.Safe.scope.bind fun scopes₁ outer _ houter => ?_
    refine (Step.Safe.new houter).bind fun scopes₂ inner _ hinner => ?_
    exact (ih.execAll scopes₂ (k.take blockFrames) body).within hinner
  | jump j keyword => exact .pure fun _ _ => held_jump _ j
  | doLoop body condition => exact ih.execDo scopes k body condition
  | expression value =>
    exact (ih.eval scopes k value).bind fun _ _ _ _ => safe_normal _
  | function name params body =>
    exact (Step.Safe.function name params body).bind fun _ _ _ _ => safe_normal _
  | ifThen condition yes =>
    exact (ih.eval scopes k condition).bind fun scopes _ _ _ =>
      .ite (ih.exec scopes k yes) (safe_normal _)
  | ifElse condition yes no =>
    exact (ih.eval scopes k condition).bind fun scopes _ _ _ =>
      .ite (ih.exec scopes k yes) (ih.exec scopes k no)
  | print value =>
    exact (ih.eval scopes k value).bind fun _ v _ _ =>
      (Step.Safe.print v).bind fun _ _ _ _ => safe_normal _
  | give keyword value =>
    cases value with
    | none => exact .pure fun _ _ => held_give _ (held_nil _)
    | some value =>
      exact (ih.eval scopes k value).bind fun _ v _ hv =>
        .pure fun _ h => held_give _ (hv.mono h)
  | switch subject arms =>
    exact (ih.eval scopes k subject).bind fun scopes v _ _ =>
      ih.execArms scopes k v arms
  | var name init =>
    cases init with
    | none => exact (Step.Safe.define name (held_nil scopes)).bind fun _ _ _ _ => safe_normal _
    | some init =>
      exact (ih.eval scopes k init).bind fun _ v _ hv =>
        (Step.Safe.define name hv).bind fun _ _ _ _ => safe_normal _
  | loop condition body => exact ih.execLoop scopes k condition body none
  | loopStep condition body step => exact ih.execLoop scopes k condition body (some step)

theorem safe_execLoop_succ (ih : SafeEval n) (condition : Expr Address) (body : Stmt Address)
    (step : Option (Stmt Address)) :
    (Interpreter.execLoop (n + 1) k condition body step).Safe scopes Flow.Held := by
  simp only [Interpreter.execLoop]
  refine (ih.eval scopes k condition).bind fun scopes v _ _ => .ite ?_ (safe_normal _)
  refine (ih.exec scopes k body).bind fun scopes flow _ hflow => ?_
  have hagain (scopes : List Scope) (step : Option (Stmt Address)) :=
    ih.execLoop scopes k condition body step
  have hafter (st : Stmt Address) :
      ((Interpreter.exec n k st).bind fun _ =>
        Interpreter.execLoop n k condition body (some st)).Safe scopes Flow.Held :=
    (ih.exec scopes k st).bind fun scopes _ _ _ => hagain scopes (some st)
  rcases flow with _ | (_ | _) | v
  · cases step with
    | none => exact hagain scopes none
    | some st => exact hafter st
  · exact safe_normal _
  · cases step with
    | none => exact hagain scopes none
    | some st => exact hafter st
  · exact .pure fun _ h => held_give _ ((hflow v rfl).mono h)

theorem safe_execDo_succ (ih : SafeEval n) (body : Stmt Address) (condition : Expr Address) :
    (Interpreter.execDo (n + 1) k body condition).Safe scopes Flow.Held := by
  rw [Interpreter.execDo]
  refine (ih.exec scopes k body).bind fun scopes flow _ hflow => ?_
  have hagain : ((Interpreter.eval n k condition).bind fun v =>
      if v.isTruthy then Interpreter.execDo n k body condition
      else .pure .normal).Safe scopes Flow.Held :=
    (ih.eval scopes k condition).bind fun scopes _ _ _ =>
      .ite (ih.execDo scopes k body condition) (safe_normal _)
  rcases flow with _ | (_ | _) | v
  · exact hagain
  · exact safe_normal _
  · exact hagain
  · exact .pure fun _ h => held_give _ ((hflow v rfl).mono h)

end

theorem safeEval (n : Nat) : SafeEval n := by
  induction n with
  | zero => constructor <;> intros <;> exact .cut
  | succ n ih =>
    refine ⟨fun scopes k => safe_eval_succ scopes k ih,
      fun scopes k es => ?_, fun scopes k => safe_call_succ scopes k ih,
      fun scopes k => safe_exec_succ scopes k ih,
      fun scopes k ss => ?_, fun scopes k => safe_execLoop_succ scopes k ih,
      fun scopes k => safe_execDo_succ scopes k ih,
      fun scopes k subject as => ?_⟩
    · cases es with
      | nil => exact .pure fun _ _ => by simp
      | cons e es =>
        refine (ih.eval scopes k e).bind fun scopes v _ hv => ?_
        refine (ih.evalAll scopes k es).bind fun scopes' vs hscopes hvs => ?_
        refine .pure fun scopes'' hscopes' w hw => ?_
        rcases List.mem_cons.1 hw with rfl | hw
        · exact hv.mono (hscopes.trans hscopes')
        · exact (hvs w hw).mono hscopes'
    · cases ss with
      | nil => exact safe_normal _
      | cons s ss =>
        rw [Interpreter.execAll]
        refine (ih.exec scopes k s).bind fun scopes flow _ hflow => ?_
        cases flow with
        | normal => exact ih.execAll scopes k ss
        | jump j => exact .pure fun _ _ => held_jump _ j
        | give v => exact .pure fun _ h => held_give _ ((hflow v rfl).mono h)
    · cases as with
      | done => exact safe_normal _
      | otherwise body => exact ih.exec scopes k body
      | case condition body rest =>
        exact (ih.eval scopes k condition).bind fun scopes _ _ _ =>
          .ite (ih.exec scopes k body) (ih.execArms scopes k subject rest)

theorem safe_execEach (n : Nat) (scopes : List Scope) (k : Stack)
    (ss : List (Stmt Address)) :
    (Interpreter.execEach n k ss).Safe scopes fun _ _ => True := by
  induction ss generalizing scopes with
  | nil => exact .pure fun _ _ => trivial
  | cons s ss ih => exact ((safeEval n).exec scopes k s).bind fun scopes _ _ _ => ih scopes

end Scriptlet

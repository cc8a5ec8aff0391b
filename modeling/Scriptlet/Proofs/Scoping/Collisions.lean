import Scriptlet.Proofs.Evaluation.Errors
import Scriptlet.Proofs.Faults.Sessions
import Scriptlet.Proofs.Renaming.Lockstep

/-! Only at top level can a variable be there already when it is declared. -/
namespace Scriptlet

variable {starts : Place → Task → Prop} {p : Place} {scopes : Scopes} {scope : Scope}
  {name : Token} {v : Value} {m m' : Machine}

namespace Task

/-- In the course of the evaluation, but of none inside, a variable of this scope is defined: by a
declaration, or as one of the parameters of a call, after those before it. -/
inductive Defines : Task → Scope → Token → Value → Machine → Prop where
  | function {n : Nat} {c : Context} {name : Token} {params : List Token}
    {body : List (Stmt Address)} {m : Machine} (hroom : c.deeper.stack.overflow? = none) :
    Defines (.stmt (n + 1) c (.function name params body) m) c.scope name
      (.closure ⟨m.closures, name, params, body, c.scope⟩) { m with closures := m.closures + 1 }
  | var {n : Nat} {c : Context} {name : Token} {m : Machine}
    (hroom : c.deeper.stack.overflow? = none) :
    Defines (.stmt (n + 1) c (.var name none) m) c.scope name .nil m
  | initialized {n : Nat} {c : Context} {name : Token} {init : Expr Address} {m m' : Machine}
    {v : Value} (hroom : c.deeper.stack.overflow? = none)
    (hinit : eval n c.deeper init m = .done v m') :
    Defines (.stmt (n + 1) c (.var name (some init)) m) c.scope name v m'
  | parameter {n : Nat} {c : Context} {paren : Token} {f : Closure} {vs us ws : List Value}
    {before after : List Token} {x : Token} {v : Value} {m m' : Machine}
    (harity : vs.length = f.params.length) (hroom : (c.calling paren).stack.overflow? = none)
    (hparams : f.params = before ++ x :: after) (hvs : vs = us ++ v :: ws)
    (hlen : us.length = before.length)
    (hbefore : Machine.defineAll (m.enter f.scope).1 before us (m.enter f.scope).2 = .done () m') :
    Defines (.call (n + 1) c paren (.closure f) vs m) (m.enter f.scope).1 x v m'

end Task

/-! The parameters of a call. -/

theorem Machine.define_eq_done (h : m.define scope name v = .done () m') :
    m.store.binds scope name.lexeme = false ∧
      m' = { m with store := m.store.add scope name.lexeme v } := by
  unfold define at h
  cases hs : m.store.define scope name v with
  | error why => simp [hs, update] at h
  | ok s =>
    rw [hs] at h
    obtain ⟨hfree, rfl⟩ := Store.define_eq_ok.1 hs
    exact ⟨hfree, (Outcome.done.inj h).2.symm⟩

/-- In the scope of a call nothing is bound but the parameters that have been defined. -/
theorem Machine.binds_defineAll {ps : List Token} {vs : List Value} {z : String}
    (hscope : scope.frame < m.store.frames.size) (h : defineAll scope ps vs m = .done () m')
    (hz : m'.store.binds scope z = true) :
    z ∈ ps.map Token.lexeme ∨ m.store.binds scope z = true := by
  induction ps generalizing vs m with
  | nil =>
    obtain ⟨-, rfl⟩ := Outcome.done.inj h
    exact .inr hz
  | cons x ps ih =>
    cases vs with
    | nil =>
      obtain ⟨-, rfl⟩ := Outcome.done.inj h
      exact .inr hz
    | cons v vs =>
      unfold defineAll at h
      cases hx : m.define scope x v with
      | stopped | outOfFuel => simp [hx] at h
      | done _ m₁ =>
        rw [hx] at h
        obtain ⟨-, rfl⟩ := define_eq_done hx
        have hkeeps : m.store.Before (m.store.add scope x.lexeme v) := Store.keeps_add trivial
        rcases ih (Nat.lt_of_lt_of_le hscope hkeeps.size) h with hps | hbinds
        · exact .inl (List.mem_cons_of_mem _ hps)
        · unfold Store.binds at hbinds
          rw [Store.frame_add hscope, if_pos rfl, Frame.binds_cons, Bool.or_eq_true] at hbinds
          rcases hbinds with hzx | hbinds
          · exact .inl (by simp [beq_iff_eq.1 hzx])
          · exact .inr hbinds

/-- If defining the parameters is stopped, then at one of them. -/
theorem Machine.stop_defineAll {ps : List Token} {vs : List Value} {why : Stop}
    (hlen : vs.length = ps.length) (h : (defineAll scope ps vs m).stop? = some why) :
    ∃ before x after us v ws m', ps = before ++ x :: after ∧ vs = us ++ v :: ws ∧
      us.length = before.length ∧ defineAll scope before us m = .done () m' ∧
      (m'.define scope x v).stop? = some why := by
  induction ps generalizing vs m with
  | nil => cases h
  | cons x ps ih =>
    cases vs with
    | nil => cases h
    | cons v vs =>
      rcases Outcome.stop_bind h with h | ⟨_, m₁, hx, h⟩
      · exact ⟨[], x, ps, [], v, vs, m, rfl, rfl, rfl, rfl, h⟩
      · obtain ⟨before, y, after, us, w, ws, m', rfl, rfl, hus, hbefore, hstop⟩ :=
          ih (Nat.succ.inj hlen) h
        refine ⟨x :: before, y, after, v :: us, w, ws, m', rfl, rfl, congrArg (· + 1) hus, ?_,
          hstop⟩
        rw [defineAll, hx]
        exact hbefore

/-- A parameter is bound only if another one of its name comes before it. -/
theorem Machine.free_parameter {ps before after : List Token} {x : Token} {us : List Value}
    {outer : Scope} (hnodup : (ps.map Token.lexeme).Nodup) (hps : ps = before ++ x :: after)
    (h : defineAll (m.enter outer).1 before us (m.enter outer).2 = .done () m') :
    m'.store.binds (m.enter outer).1 x.lexeme = false := by
  have hscope : (m.enter outer).1.frame < (m.enter outer).2.store.frames.size := by
    simp [enter, Store.next, Scope.frame, Store.grow]
  rw [← Bool.not_eq_true]
  intro hbound
  rcases binds_defineAll hscope h hbound with hbefore | hfresh
  · rw [hps, List.map_append, List.map_cons] at hnodup
    exact (List.nodup_append.1 hnodup).2.2 _ hbefore _ List.mem_cons_self rfl
  · rw [binds_enter] at hfresh
    cases hfresh

/-! Where nothing is around a piece of a program, it runs in the scope of the globals. -/

namespace Task

theorem Inside.scope_eq {path : List Part} {t t' : Task} (hin : t.Inside path t')
    (hpath : path ≠ [.block]) : t'.scope = t.scope := by
  cases hin <;> first | rfl | exact absurd rfl hpath

theorem Inside.scopes_eq {path : List Part} {t t' : Task} (hin : t.Inside path t')
    (hpath : path ≠ [.block]) (p : Place) : Place.scopes (path ++ p) = p.scopes := by
  cases hin <;> first | rfl | exact absurd rfl hpath

end Task

/-- Outside of all blocks and functions, the scope is that of the globals. -/
theorem Located.scope_eq (hstart : ∀ p t, starts p t → t.scope = Machine.globals) {t : Task}
    (h : Located starts p scopes t) (hp : p.scopes = []) : t.scope = Machine.globals := by
  induction h with
  | start h => exact hstart _ _ h
  | @inside p path scopes t t' _ _ hin ih =>
    by_cases hpath : path = [.block]
    · subst hpath
      cases hp
    · rw [hin.scopes_eq hpath] at hp
      rw [hin.scope_eq hpath]
      exact ih hp
  | body => cases hp

/-- A declaration in a scope of its own finds its name free. -/
theorem Env.free_of_ne_globals {s : Store Value} {t : Task}
    (h : Env starts p scopes scope s) (hstart : ∀ p t, starts p t → t.scope = Machine.globals)
    (hloc : Located starts p scopes t) (hscope : t.scope ≠ Machine.globals)
    (hclash : scopes.clashes name = false) : s.binds scope name.lexeme = false := by
  cases hp : p.scopes with
  | nil => exact absurd (hloc.scope_eq hstart hp) hscope
  | cons q qs => exact h.free hclash (by rw [hp]; rfl)

/-- What is defined in a scope that is not that of the globals is not bound there yet. -/
theorem Task.Defines.free {t : Task} (h : t.Defines scope name v m)
    (hstart : ∀ p t, starts p t → t.scope = Machine.globals)
    (hdeclared : t.Declared starts) (hloc : Located starts p scopes t)
    (hfits : ∀ p t, starts p t → t.Fits starts p []) (hscope : scope ≠ Machine.globals) :
    m.store.binds scope name.lexeme = false := by
  have hfit := hloc.fits hfits
  cases h with
  | function => exact hfit.env.free_of_ne_globals hstart hloc hscope hfit.resolved.2.1
  | var => exact hfit.env.free_of_ne_globals hstart hloc hscope hfit.resolved.2.1
  | initialized _ hinit =>
    exact (hfit.env.eval hinit).free_of_ne_globals hstart hloc hscope hfit.resolved.2.1
  | parameter _ _ hparams _ _ hbefore =>
    obtain ⟨q, outer, d, m₀, hd, hmakes, -⟩ := hdeclared.2.1 _ rfl _ rfl
    have hnodup := (hd.fits hfits).resolved
    cases hmakes with
    | intro => exact Machine.free_parameter hnodup.2.2.1 hparams hbefore

/-- Nothing but a definition finds a name defined already. -/
theorem Task.Stops.defines {t : Task} (h : t.Stops (.error ⟨name, .alreadyDefined⟩)) :
    ∃ scope v m, t.Defines scope name v m ∧ m.store.binds scope name.lexeme = true := by
  have hdefine {scope : Scope} {x : Token} {v : Value} {m : Machine}
      (h : (m.define scope x v).stop? = some (.error ⟨name, .alreadyDefined⟩)) :
      m.store.binds scope name.lexeme = true ∧ x = name := by
    obtain ⟨hbound, he⟩ := Store.define_error (Machine.stop_update h)
    obtain rfl : name = x := congrArg RuntimeError.token he
    exact ⟨hbound, rfl⟩
  cases h with
  | read _ hread => cases Machine.read_error hread
  | write _ _ hwrite => cases Machine.write_error hwrite
  | unary _ _ hwhy => cases unary_error hwhy
  | binary _ _ _ _ _ hwhy => rcases binary_error hwhy with h | h <;> cases h
  | parameter harity hroom hparams =>
    obtain ⟨before, x, after, us, v, ws, m', hps, hvs, hlen, hbefore, hstop⟩ :=
      Machine.stop_defineAll harity hparams
    obtain ⟨hbound, rfl⟩ := hdefine hstop
    exact ⟨_, v, m', .parameter harity hroom hps hvs hlen hbefore, hbound⟩
  | function hroom hstop =>
    obtain ⟨hbound, rfl⟩ := hdefine hstop
    exact ⟨_, _, _, .function hroom, hbound⟩
  | var hroom hstop =>
    obtain ⟨hbound, rfl⟩ := hdefine hstop
    exact ⟨_, _, _, .var hroom, hbound⟩
  | initialized hroom hinit hstop =>
    obtain ⟨hbound, rfl⟩ := hdefine hstop
    exact ⟨_, _, _, .initialized hroom hinit, hbound⟩

/-- The evaluation is of a declaration in the scope of the globals, and fails since the name is
bound there already. -/
structure Task.Redeclares (t : Task) (name : Token) : Prop where
  declaration : ∃ n c s m, t = .stmt n c s m ∧ c.scope = Machine.globals
  bound : ∃ v m, t.Defines Machine.globals name v m ∧
    m.store.binds Machine.globals name.lexeme = true
  error : t.stop? = some (.error ⟨name, .alreadyDefined⟩)

theorem Machine.define_of_bound (h : m.store.binds scope name.lexeme = true) (v : Value) :
    m.define scope name v = .stopped (.error ⟨name, .alreadyDefined⟩) m := by
  simp [define, Store.define, h, update]

theorem Task.Defines.redeclares {t : Task} (h : t.Defines Machine.globals name v m)
    (hbound : m.store.binds Machine.globals name.lexeme = true) : t.Redeclares name := by
  have hdefine := Machine.define_of_bound hbound
  generalize hscope : Machine.globals = scope at h hbound hdefine
  refine ⟨?_, ⟨v, m, hscope ▸ h, hscope ▸ hbound⟩, ?_⟩
  · cases h with
    | function | var | initialized => exact ⟨_, _, _, _, rfl, hscope.symm⟩
    | parameter => cases hscope
  · cases h with
    | function hroom | var hroom =>
      simp [stop?, exec, Context.guard_of_room hroom, hdefine, Outcome.stop?]
    | initialized hroom hinit =>
      simp [stop?, exec, Context.guard_of_room hroom, hinit, hdefine, Outcome.stop?]
    | parameter => cases hscope

namespace Session

variable {subs : List Submission} {t : Task}

theorem Starts.scope_eq (h : Starts subs p t) : t.scope = Machine.globals := by
  cases h with
  | intro => rfl

/-- In the course of the texts of a session, a local variable is never there before its
definition. -/
theorem Starts.free (h : Visited (Starts subs) t) (hdefines : t.Defines scope name v m)
    (hscope : scope ≠ Machine.globals) : m.store.binds scope name.lexeme = false := by
  obtain ⟨⟨p, scopes, hloc⟩, hdeclared⟩ := h.located fun _ _ => Starts.declared
  exact hdefines.free (fun _ _ => Starts.scope_eq) hdeclared hloc (fun _ _ => Starts.fits) hscope

theorem Starts.redeclares (h : Visited (Starts subs) t)
    (hstops : t.Stops (.error ⟨name, .alreadyDefined⟩)) : t.Redeclares name := by
  obtain ⟨scope, v, m, hdefines, hbound⟩ := hstops.defines
  have hscope : scope = Machine.globals := by
    by_contra hne
    rw [Starts.free h hdefines hne] at hbound
    cases hbound
  subst hscope
  exact hdefines.redeclares hbound

/-- Whatever texts a session runs: a variable that is defined in any scope but that of the globals
is not bound there, and is defined. What fails since a variable is there already, an evaluation or a
whole text, comes to a declaration in the scope of the globals that fails so. -/
theorem locals_never_collide (subs : List Submission) :
    (∀ t scope name v m, Visited (Starts subs) t → t.Defines scope name v m →
      scope ≠ Machine.globals →
      m.store.binds scope name.lexeme = false ∧ ∃ m', m.define scope name v = .done () m') ∧
    (∀ t name, Visited (Starts subs) t → t.stop? = some (.error ⟨name, .alreadyDefined⟩) →
      ∃ t', Visited (Starts subs) t' ∧ t'.Redeclares name) ∧
    (∀ earlier sub later s name, subs = earlier ++ sub :: later → Reached earlier s →
      (s.run sub.fuel sub.host sub.text).1.verdict = .failed ⟨name, .alreadyDefined⟩ →
      ∃ t, Visited (Launches s sub) t ∧ t.Redeclares name) := by
  refine ⟨fun t scope name v m h hdefines hscope => ?_, fun t name h hstop => ?_,
    fun earlier sub later s name _ hreached hverdict => ?_⟩
  · have hfree := Starts.free h hdefines hscope
    exact ⟨hfree, _, Machine.define_of_free hfree v⟩
  · obtain ⟨t', h', hstops⟩ := h.stops hstop
    exact ⟨t', h', Starts.redeclares h' hstops⟩
  · obtain ⟨t, h, hstop⟩ := run_stopped (.error ⟨name, .alreadyDefined⟩) hverdict
    obtain ⟨t', h', hstops⟩ := h.stops hstop
    exact ⟨t', h', Starts.redeclares (Launches.visited hreached h') hstops⟩

/-- A name that is free in a block, and taken at top level. -/
theorem locals_never_collide_global :
    let name (column : Nat) : Token := ⟨.identifier, "a", ⟨1, column⟩⟩
    let sub : Submission := ⟨"var a;\x7bvar a;\x7dvar a;", 9, .still 99 0⟩
    ∃ t scope m, Visited (Starts [sub]) t ∧ t.Defines scope (name 12) .nil m ∧
      scope ≠ Machine.globals ∧ m.store.binds scope "a" = false ∧
      m.store.binds Machine.globals "a" = true ∧
      (new.run sub.fuel sub.host sub.text).1.verdict = .failed ⟨name 19, .alreadyDefined⟩ ∧
      ∃ t, Visited (Launches new sub) t ∧ t.Redeclares (name 19) := by
  intro name sub
  obtain ⟨hfree, -, hfails⟩ := locals_never_collide [sub]
  let program : List (Stmt Unit) :=
    [.var (name 5) none, .block [.var (name 12) none], .var (name 19) none]
  have hscan : scan sub.text = [⟨.kwVar, "var", ⟨1, 1⟩⟩, name 5, ⟨.semicolon, ";", ⟨1, 6⟩⟩,
      ⟨.leftBrace, "\x7b", ⟨1, 7⟩⟩, ⟨.kwVar, "var", ⟨1, 8⟩⟩, name 12,
      ⟨.semicolon, ";", ⟨1, 13⟩⟩, ⟨.rightBrace, "\x7d", ⟨1, 14⟩⟩, ⟨.kwVar, "var", ⟨1, 15⟩⟩,
      name 19, ⟨.semicolon, ";", ⟨1, 20⟩⟩, ⟨.eof, "", ⟨1, 21⟩⟩] := by decide +kernel
  have hparse : parse sub.host.frames (scan sub.text) = .ok ⟨program, []⟩ := by
    rw [hscan]
    cbv
  have hstart : Starts [sub] [.text 0]
      (.program 9 (context sub.host) (resolve program) new.machine) :=
    .intro (rfl : [sub] = [] ++ sub :: []) .new hparse rfl
  have hblock := ((Visited.start hstart).inside rfl (.topOthers rfl)).inside rfl .topFirst
  have hvar := (hblock.inside rfl .block).inside rfl .first
  have hverdict : (new.run sub.fuel sub.host sub.text).1.verdict =
      .failed ⟨name 19, .alreadyDefined⟩ := by decide +kernel
  have hinner (f : Nat) (outer : Scope) : Scope.inner f outer ≠ Machine.globals := by
    intro h
    cases h
  have hlocal := hfree _ _ _ _ _ hvar (.var rfl) (hinner _ _)
  exact ⟨_, _, _, hvar, .var rfl, hinner _ _, hlocal.1, rfl, hverdict,
    hfails [] sub [] new _ rfl .new hverdict⟩

end Session
end Scriptlet

import Scriptlet.Proofs.Evaluation.Alike
import Scriptlet.Proofs.Evaluation.Errors
import Scriptlet.Proofs.Renaming.Stores

/-! Single steps of a run and of the same run of the renamed program. -/
namespace Scriptlet

/-- The programs that are run can be renamed so. -/
structure Renaming.Suits (r : Renaming) (starts : Place → Task → Prop) : Prop where
  fits (p : Place) (t : Task) (h : starts p t) : t.Fits starts p []
  spared (p : Place) (t : Task) (h : starts p t) : t.Spared r p

/-- The variable that is read or assigned. -/
def Expr.use? {ρ : Type} : Expr ρ → Option Token
  | .reference name _ | .assign name _ _ => some name
  | _ => none

/-- Both runs stop for the same reason. If a variable is undefined, it is blamed on the same use. -/
inductive Stop.Renamed (r : Renaming) (starts : Place → Task → Prop) : Stop → Stop → Prop where
  | same {why : Stop} (h : ∀ name, why ≠ .error ⟨name, .undefined⟩) : Renamed r starts why why
  | undefined {p : Place} {scopes : Scopes} {n : Nat} {c : Context} {e : Expr Address}
    {m : Machine} {name : Token} (h : Located starts p scopes (.expr n c e m))
    (huse : e.use? = some name) :
    Renamed r starts (.error ⟨name, .undefined⟩) (.error ⟨r.used p scopes name, .undefined⟩)

structure Machine.Renamed (r : Renaming) (starts : Place → Task → Prop) (flags : List Bool)
    (m m' : Machine) : Prop where
  store : m.store.Renamed r starts flags m'.store
  closures : m'.closures = m.closures
  readings : m'.readings = m.readings
  printed : m'.printed.map Value.print = m.printed.map Value.print

/-- The steps end in the same way, with results of this sort. There may be new frames. -/
def Outcome.Agree {α β : Type} (r : Renaming) (starts : Place → Task → Prop) (flags : List Bool)
    (V : List Bool → Store Value → α → β → Prop) : Outcome α → Outcome β → Prop
  | .done a m, .done b m' => ∃ flags', flags <+: flags' ∧ m.Renamed r starts flags' m' ∧
    V flags' m.store a b
  | .stopped why m, .stopped why' m' => why.Renamed r starts why' ∧
    m'.printed.map Value.print = m.printed.map Value.print
  | .outOfFuel m, .outOfFuel m' => m'.printed.map Value.print = m.printed.map Value.print
  | _, _ => False

variable {α β γ δ : Type} {r : Renaming} {starts : Place → Task → Prop} {flags flags' : List Bool}
  {V : List Bool → Store Value → α → β → Prop} {W : List Bool → Store Value → γ → δ → Prop}
  {m m' : Machine} {p : Place} {scopes : Scopes} {c : Context}

theorem Outcome.Agree.widen {o : Outcome α} {o' : Outcome β} (hflags : flags <+: flags')
    (h : o.Agree r starts flags' V o') : o.Agree r starts flags V o' := by
  cases o with
  | done a m => cases o' with
    | done b m' =>
      obtain ⟨flags'', hflags', hm, hV⟩ := h
      exact ⟨flags'', hflags.trans hflags', hm, hV⟩
    | stopped | outOfFuel => exact h
  | stopped | outOfFuel => cases o' <;> exact h

theorem Outcome.Agree.bind {o : Outcome α} {o' : Outcome β} {f : α → Machine → Outcome γ}
    {f' : β → Machine → Outcome δ} (ho : o.Agree r starts flags V o')
    (hf : ∀ a m b m' flags', o = .done a m → flags <+: flags' → m.Renamed r starts flags' m' →
      V flags' m.store a b → (f a m).Agree r starts flags' W (f' b m')) :
    (o.bind f).Agree r starts flags W (o'.bind f') := by
  cases o with
  | done a m => cases o' with
    | done b m' =>
      obtain ⟨flags', hflags, hm, hV⟩ := ho
      exact (hf a m b m' flags' rfl hflags hm hV).widen hflags
    | stopped | outOfFuel => exact ho.elim
  | stopped | outOfFuel => cases o' with
    | done => exact ho.elim
    | stopped | outOfFuel => exact ho

theorem agree_done {a : α} {b : β} (hm : m.Renamed r starts flags m') (hV : V flags m.store a b) :
    (Outcome.done a m).Agree r starts flags V (.done b m') :=
  ⟨flags, List.prefix_refl _, hm, hV⟩

theorem agree_stopped {why why' : Stop} (hm : m.Renamed r starts flags m')
    (hwhy : why.Renamed r starts why') :
    (Outcome.stopped why m : Outcome α).Agree r starts flags V (.stopped why' m') :=
  ⟨hwhy, hm.printed⟩

theorem agree_outOfFuel (hm : m.Renamed r starts flags m') :
    (Outcome.outOfFuel m : Outcome α).Agree r starts flags V (.outOfFuel m') := hm.printed

/-- Both runs are out of frames at the same steps. -/
theorem agree_guard {f : Context → Outcome α} {f' : Context → Outcome β}
    (hm : m.Renamed r starts flags m')
    (hf : c.stack.overflow? = none → (f c).Agree r starts flags V (f' c)) :
    (c.guard m f).Agree r starts flags V (c.guard m' f') := by
  unfold Context.guard
  split
  · exact agree_stopped hm (.same fun name => by simp)
  next hroom => exact hf hroom

theorem Renaming.Suits.located_fits (hr : r.Suits starts) {t : Task}
    (h : Located starts p scopes t) : t.Fits starts p scopes := h.fits hr.fits

theorem Renaming.Suits.located_spared (hr : r.Suits starts) {t : Task}
    (h : Located starts p scopes t) : t.Spared r p := h.spared hr.spared

/-! Access to variables. -/

/-- The scope that a use with the right address finds, in both runs. -/
theorem Renaming.Marks.owner {name : Token} {address : Address}
    (h : r.Marks flags p.scopes c.scope) (hroot : flags[0]? = some false)
    (hlen : p.scopes.length = scopes.length) (haddress : address = scopes.address name) :
    ∃ owner, flags[owner.frame]? = some (r.means p scopes name) ∧
      (∀ (m : Machine) name, m.read c name address = .ofExcept m (m.store.getHere owner name)) ∧
      ∀ (m : Machine) name v,
        m.write c name v address = m.update v (m.store.assignHere owner name v) := by
  unfold Scopes.address at haddress
  cases hd : scopes.distance? name with
  | none =>
    rw [hd] at haddress
    subst haddress
    refine ⟨Machine.globals, ?_, fun m name => ?_, fun m name v => ?_⟩
    · unfold Renaming.means
      rw [hd]
      exact hroot
    · rw [Machine.read, Store.get_globals]
    · rw [Machine.write, Store.assign_globals]
  | some d =>
    rw [hd] at haddress
    subst haddress
    have hlt : d < scopes.length := (List.findIdx?_eq_some_iff_getElem.1 hd).1
    have hlt' : d < p.scopes.length := hlen ▸ hlt
    have hplace : p.scopes[d]? = some p.scopes[d] := List.getElem?_eq_getElem hlt'
    obtain ⟨owner, hup, hflag⟩ := h.up hplace
    have hancestor : c.scope.ancestor (d : Int) = .ok owner := by
      simp [Scope.ancestor, hup]
    refine ⟨owner, ?_, fun m name => ?_, fun m name v => ?_⟩
    · unfold Renaming.means
      rw [hd, Option.bind_some, hplace, hflag]
      simp
    · rw [Machine.read, Store.getAt, hancestor]
    · rw [Machine.write, Store.assignAt, hancestor]

theorem agree_read (hr : r.Suits starts) {n : Nat} {c₀ : Context} {name : Token}
    {address : Address} (hloc : Located starts p scopes (.expr n c₀ (.reference name address) m))
    (hm : m.Renamed r starts flags m') (hmarks : r.Marks flags p.scopes c.scope) :
    (m.read c name address).Agree r starts flags (Value.Renamed r starts)
      (m'.read c (r.used p scopes name) address) := by
  have hfits := hr.located_fits hloc
  have hnew : r.new ≠ name.lexeme := by
    have hfresh := (hr.located_spared hloc).fresh
    simpa [Task.names, Expr.names] using hfresh
  obtain ⟨owner, hflag, hread, -⟩ :=
    hmarks.owner hm.store.root hfits.env.length hfits.resolved.1
  have hframe := hm.store.frames _ _ hflag
  rw [hread, hread]
  unfold Store.getHere Store.read?
  rcases hframe.lookup fun _ => hnew.symm with ⟨hnone, hnone'⟩ | ⟨v, v', hsome, hsome', hv⟩
  · have hlookup : (m'.store.frame owner.frame).lookup (r.used p scopes name).lexeme = none :=
      hnone'
    rw [hnone, hlookup]
    exact agree_stopped hm (.undefined hloc rfl)
  · have hlookup : (m'.store.frame owner.frame).lookup (r.used p scopes name).lexeme = some v' :=
      hsome'
    rw [hsome, hlookup]
    exact agree_done hm hv

theorem agree_write (hr : r.Suits starts) {n : Nat} {c₀ : Context} {name : Token}
    {value : Expr Address} {address : Address} {m₀ : Machine} {v v' : Value}
    (hloc : Located starts p scopes (.expr n c₀ (.assign name value address) m₀))
    (hm : m.Renamed r starts flags m') (hmarks : r.Marks flags p.scopes c.scope)
    (hv : v.Renamed r starts flags m.store v') :
    (m.write c name v address).Agree r starts flags (Value.Renamed r starts)
      (m'.write c (r.used p scopes name) v' address) := by
  have hfits := hr.located_fits hloc
  have hnew : r.new ≠ name.lexeme := by
    have hfresh := (hr.located_spared hloc).fresh
    simp only [Task.names, Expr.names, List.mem_cons, not_or] at hfresh
    exact hfresh.1
  obtain ⟨owner, hflag, -, hwrite⟩ :=
    hmarks.owner hm.store.root hfits.env.length hfits.resolved.1
  have hbinds : m'.store.binds owner (r.used p scopes name).lexeme =
      m.store.binds owner name.lexeme := (hm.store.frames _ _ hflag).binds fun _ => hnew.symm
  rw [hwrite, hwrite]
  unfold Store.assignHere
  rw [hbinds]
  cases m.store.binds owner name.lexeme with
  | false => exact agree_stopped hm (.undefined hloc rfl)
  | true =>
    have hbefore : m.store.Before (m.store.set owner name.lexeme v) :=
      Store.keeps_set _ owner name.lexeme v
    have hset := hm.store.set hflag (fun _ => hnew.symm) hv
    exact ⟨flags, List.prefix_refl _, ⟨hset, hm.closures, hm.readings, hm.printed⟩,
      hv.mono (List.prefix_refl _) hbefore⟩

/-- A declaration. If the names differ, it has to be new. -/
theorem agree_define {scope : Scope} {here : Bool} {name : Token} {v v' : Value}
    (hm : m.Renamed r starts flags m') (hflag : flags[scope.frame]? = some here)
    (hname : here = true → name.lexeme ≠ r.new)
    (hfree : here = true → m.store.binds scope name.lexeme = false)
    (hv : ∀ s, m.store.define scope name v = .ok s → v.Renamed r starts flags s v') :
    (m.define scope name v).Agree r starts flags (fun _ _ _ _ => True)
      (m'.define scope (r.token here name) v') := by
  have hbinds : m'.store.binds scope (r.token here name).lexeme =
      m.store.binds scope name.lexeme := (hm.store.frames _ _ hflag).binds hname
  unfold Machine.define Store.define
  rw [hbinds]
  cases h : m.store.binds scope name.lexeme with
  | false =>
    have hadd := hm.store.add hflag hname (hv _ (Store.define_eq_ok.2 ⟨h, rfl⟩))
    exact ⟨flags, List.prefix_refl _, ⟨hadd, hm.closures, hm.readings, hm.printed⟩, trivial⟩
  | true =>
    cases here with
    | true =>
      rw [hfree rfl] at h
      cases h
    | false =>
      rw [Renaming.token_false]
      exact agree_stopped hm (.same fun t => by simp)

/-- A value that is there already. -/
theorem renamed_define {scope : Scope} {name : Token} {v v' w : Value} {s : Store Value}
    (hv : v.Renamed r starts flags m.store v') (hs : m.store.define scope name w = .ok s) :
    v.Renamed r starts flags s v' := by
  obtain ⟨-, rfl⟩ := Store.define_eq_ok.1 hs
  exact hv.mono (List.prefix_refl _) (Store.keeps_add trivial)

theorem agree_defineAll {scope : Scope} {here : Bool} {params : List Token} {vs vs' : List Value}
    (hm : m.Renamed r starts flags m') (hflag : flags[scope.frame]? = some here)
    (hnames : ∀ x ∈ params, x.lexeme ≠ r.new) (hnodup : (params.map Token.lexeme).Nodup)
    (hfree : ∀ x ∈ params, m.store.binds scope x.lexeme = false)
    (hvs : List.Forall₂ (Value.Renamed r starts flags m.store) vs vs') :
    (Machine.defineAll scope params vs m).Agree r starts flags (fun _ _ _ _ => True)
      (Machine.defineAll scope (params.map (r.token here)) vs' m') := by
  induction params generalizing vs vs' m m' flags with
  | nil => exact agree_done hm trivial
  | cons x params ih =>
    cases hvs with
    | nil => exact agree_done hm trivial
    | @cons v v' vs vs' hv hvs =>
      have hx := List.mem_cons_self (a := x) (l := params)
      have hfirst := agree_define hm hflag (fun _ => hnames x hx) (fun _ => hfree x hx)
        fun s hs => renamed_define hv hs
      refine hfirst.bind fun _ m₁ _ m₁' flags₁ hdone hflags hm₁ _ => ?_
      obtain ⟨hx', hrest⟩ := List.nodup_cons.1 hnodup
      have hkeeps : (m.define scope x v).Keeps (fun _ => True) m.store := keeps_define trivial
      rw [hdone] at hkeeps
      apply ih hm₁ (get_later hflags hflag)
      · exact fun y hy => hnames y (List.mem_cons_of_mem _ hy)
      · exact hrest
      · intro y hy
        have hne : y.lexeme ≠ x.lexeme := fun he => hx' (he ▸ List.mem_map_of_mem hy)
        have hlt : scope.frame < m.store.frames.size := hm.store.lt hflag
        unfold Machine.define at hdone
        cases hs : m.store.define scope x v with
        | error why => simp [hs, Machine.update] at hdone
        | ok s =>
          rw [hs] at hdone
          obtain ⟨-, rfl⟩ := Outcome.done.inj hdone
          obtain ⟨-, rfl⟩ := Store.define_eq_ok.1 hs
          have hy' := hfree y (List.mem_cons_of_mem _ hy)
          unfold Store.binds at hy' ⊢
          rw [Store.frame_add hlt, if_pos rfl, Frame.binds_cons, hy']
          simpa using hne
      · exact hvs.imp fun _ _ hw => hw.mono hflags hkeeps

/-! Operators. -/

variable {s : Store Value} {v v' w w' : Value}

theorem Value.Renamed.alike (h : v.Renamed r starts flags s v') : v.Alike v' := by
  cases h with
  | plain => exact .same v
  | closure => exact .closure rfl

theorem binary_ne_undefined {operator name : Token} :
    binary operator v w ≠ .error (.error ⟨name, .undefined⟩) := by
  intro h
  rcases binary_error h with h | h <;> cases h

theorem unary_ne_undefined {operator name : Token} :
    unary operator v ≠ .error (.error ⟨name, .undefined⟩) := by
  intro h
  cases unary_error h

/-- The result of an operator that both runs compute alike. -/
theorem agree_ofExcept (hm : m.Renamed r starts flags m') {e : Except Stop Value}
    (hplain : ∀ f, e ≠ .ok (.closure f))
    (hdefined : ∀ name, e ≠ .error (.error ⟨name, .undefined⟩)) :
    (Outcome.ofExcept m e).Agree r starts flags (Value.Renamed r starts)
      (Outcome.ofExcept m' e) := by
  cases e with
  | ok v => exact agree_done hm (.plain fun f hf => hplain f (congrArg _ hf))
  | error why => exact agree_stopped hm (.same fun name hn => hdefined name (congrArg _ hn))

theorem agree_binary (hm : m.Renamed r starts flags m') {operator : Token}
    (h : v.Renamed r starts flags m.store v') (hw : w.Renamed r starts flags m.store w') :
    (Outcome.ofExcept m (binary operator v w)).Agree r starts flags (Value.Renamed r starts)
      (Outcome.ofExcept m' (binary operator v' w')) := by
  by_cases hk : operator.kind = .comma
  · rw [binary_comma hk, binary_comma hk]
    exact agree_done hm hw
  · rw [h.alike.binary_eq hw.alike hk]
    exact agree_ofExcept hm (fun f hf => hk (binary_eq_closure hf).1) fun _ => binary_ne_undefined

theorem declared_function {n : Nat} {name : Token} {params : List Token}
    {body : List (Stmt Address)} (h : (Task.stmt n c (.function name params body) m).Spared r p) :
    r.declared p name = name := by
  have hkey : r.key (p.scopes.head? = some r.scope) name.lexeme = name.lexeme := by
    unfold Renaming.key
    split
    next hold =>
      obtain ⟨hscope, hname⟩ := hold
      have hmem : (⟨r.scope, name, true⟩ : Declaration) ∈ Declaration.here p name true := by
        simp [Declaration.here, of_decide_eq_true hscope]
      exact absurd hname (h.functions _ (List.mem_append_left _ hmem) rfl rfl)
    next => rfl
  unfold Renaming.declared Renaming.token
  rw [hkey]

/-- Closures show their names only, and functions keep theirs. -/
theorem Value.Renamed.print_eq (hr : r.Suits starts) (h : v.Renamed r starts flags s v') :
    v'.print = v.print := by
  cases h with
  | plain => rfl
  | closure hd hmakes _ _ =>
    cases hmakes with
    | intro =>
      have hname := declared_function (hr.located_spared hd)
      unfold Value.print Renaming.closure
      rw [hname]

theorem Value.Renamed.callee (h : v.Renamed r starts flags s v') :
    (Callee.ofValue? v = none ∧ Callee.ofValue? v' = none) ∨
      ∃ f f', Callee.ofValue? v = some f ∧ Callee.ofValue? v' = some f' ∧
        f.value.Renamed r starts flags s f'.value := by
  cases h with
  | plain h => cases v with
    | native f => exact .inr ⟨.native f, .native f, rfl, rfl, .plain h⟩
    | closure f => exact absurd rfl (h f)
    | _ => exact .inl ⟨rfl, rfl⟩
  | closure hd hmakes hbefore hmarks =>
    exact .inr ⟨.closure _, .closure _, rfl, rfl, .closure hd hmakes hbefore hmarks⟩

/-- The clock shows both runs the same. -/
theorem agree_native (hm : m.Renamed r starts flags m') (f : Native) {vs vs' : List Value}
    (hvs : List.Forall₂ (Value.Renamed r starts flags m.store) vs vs') :
    (Outcome.done (f.apply (c.stack.host.clock m.readings) vs) (f.after m)).Agree r starts flags
      (Value.Renamed r starts)
      (.done (f.apply (c.stack.host.clock m'.readings) vs') (f.after m')) := by
  rw [Value.Alike.apply_eq (hvs.imp fun _ _ => Value.Renamed.alike), hm.readings]
  have hafter : (f.after m).Renamed r starts flags (f.after m') := by
    cases f with
    | clock => exact ⟨hm.store, hm.closures, congrArg (· + 1) hm.readings, hm.printed⟩
    | typeof => exact hm
  exact agree_done hafter (.plain fun g => apply_ne_closure _ f vs g)

end Scriptlet

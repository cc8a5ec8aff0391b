import Scriptlet.Proofs.Braces.Pairs

/-! Steps that agree in a run and in the same run of the program in other scopes. -/
namespace Scriptlet

/-- Which of the two runs may be cut short. The other one has fuel to come as far. -/
inductive Side where
  | first | second

/-- What comes of the same step in both runs. As soon as one of them is cut short, there is nothing
to say of the other one but that it shows at least as much. The second one may be out of frames of
the host before the first one is. -/
inductive Course.Agree {α β : Type} (side : Side) (φ : List Nat) (flags : List Bool)
    (V : List Nat → α → β → Prop) : Course α → Course β → Prop where
  | done {φ' : List Nat} {a : α} {b : β} {s s' : Interpreter} (hφ : φ <+: φ')
    (hs : s.Paired φ' flags s') (hV : V φ' a b) : Agree side φ flags V (.done a s) (.done b s')
  | stopped (why : Stop) {s s' : Interpreter} (h : s'.machine.shown = s.machine.shown) :
    Agree side φ flags V (.stopped why s) (.stopped why s')
  | first {s : Interpreter} {r' : Course β} (hside : side = .first)
    (h : s.machine.shown <+: r'.state.machine.shown) : Agree side φ flags V (.cut s) r'
  | second {r : Course α} {s' : Interpreter} (hside : side = .second)
    (h : s'.machine.shown <+: r.state.machine.shown) : Agree side φ flags V r (.cut s')
  | overflow {r : Course α} (paren : Token) {s' : Interpreter}
    (h : s'.machine.shown <+: r.state.machine.shown) :
    Agree side φ flags V r (.stopped (.error ⟨paren, .stackOverflow⟩) s')

/-- The steps agree, in all interpreters that are paired so, and with all frames paired later. -/
def Step.Agree {α β : Type} (side : Side) (φ : List Nat) (flags : List Bool)
    (V : List Nat → α → β → Prop) (t : Step α) (t' : Step β) : Prop :=
  ∀ φ' s s', φ <+: φ' → s.Paired φ' flags s' → (t.run s).Agree side φ' flags V (t'.run s')

variable {α β γ δ : Type} {side : Side} {φ φ' : List Nat} {flags flags' : List Bool}
  {V : List Nat → α → β → Prop} {W : List Nat → γ → δ → Prop}

theorem Course.Agree.widen {r : Course α} {r' : Course β} (h : r.Agree side φ' flags V r')
    (hφ : φ <+: φ') : r.Agree side φ flags V r' := by
  cases h with
  | done hφ' hs hV => exact .done (hφ.trans hφ') hs hV
  | stopped why h => exact .stopped why h
  | first hside h => exact .first hside h
  | second hside h => exact .second hside h
  | overflow paren h => exact .overflow paren h

theorem Interpreter.Later.shown {s s' : Interpreter} (h : s.Later s') :
    s.machine.shown <+: s'.machine.shown := h.printed.map _

namespace Step.Agree

variable {t : Step α} {t' : Step β}

theorem pure {a : α} {b : β} (h : ∀ φ', φ <+: φ' → V φ' a b) :
    (Step.pure a).Agree side φ flags V (Step.pure b) :=
  fun φ' _ _ hφ hs => .done (List.prefix_refl φ') hs (h φ' hφ)

theorem stop (why : Stop) : (Step.stop why : Step α).Agree side φ flags V (.stop why) :=
  fun _ _ _ _ hs => .stopped why hs.machine.shown

theorem cut_first : (Step.cut : Step α).Agree .first φ flags V t' := by
  intro φ' s s' _ hs
  refine .first rfl ?_
  rw [← hs.machine.shown]
  exact (t'.later s').shown

theorem cut_second : t.Agree .second φ flags V (Step.cut : Step β) := by
  intro φ' s s' _ hs
  refine .second rfl ?_
  rw [hs.machine.shown]
  exact (t.later s).shown

theorem later (h : t.Agree side φ flags V t') (hφ : φ <+: φ') : t.Agree side φ' flags V t' :=
  fun φ'' s s' hφ' hs => h φ'' s s' (hφ.trans hφ') hs

/-- What comes after a step takes back nothing that has been shown. -/
theorem shown_bind (r : Course α) (f : α → Step γ) :
    r.state.machine.shown <+: (match r with
      | .done a s => (f a).run s
      | .stopped why s => .stopped why s
      | .cut s => .cut s : Course γ).state.machine.shown := by
  cases r with
  | done a s => exact ((f a).later s).shown
  | stopped | cut => exact List.prefix_refl _

/-- The second run is out of frames. -/
theorem overflow (paren : Token) :
    t.Agree side φ flags V (Step.stop (.error ⟨paren, .stackOverflow⟩) : Step β) := by
  intro φ' s s' _ hs
  refine .overflow paren ?_
  have hshown : s'.machine.shown = s.machine.shown := hs.machine.shown
  change s'.machine.shown <+: _
  rw [hshown]
  exact (t.later s).shown

/-- After steps that agree, the next ones have to agree on related values only. -/
theorem bind {f : α → Step γ} {f' : β → Step δ} (ht : t.Agree side φ flags V t')
    (hf : ∀ φ' a b, φ <+: φ' → V φ' a b → (f a).Agree side φ' flags W (f' b)) :
    (t.bind f).Agree side φ flags W (t'.bind f') := by
  intro φ' s s' hφ hs
  have hrun := ht φ' s s' hφ hs
  rw [run_bind, run_bind]
  generalize t.run s = r at hrun
  generalize t'.run s' = r' at hrun
  cases hrun with
  | @done φ'' a b s₁ s₁' hφ' hs₁ hV =>
    exact (hf φ'' a b (hφ.trans hφ') hV φ'' s₁ s₁' (List.prefix_refl _) hs₁).widen hφ'
  | stopped why h => exact .stopped why h
  | first hside h =>
    exact .first hside (h.trans (shown_bind r' f'))
  | second hside h =>
    exact .second hside (h.trans (shown_bind r f))
  | overflow paren h => exact .overflow paren (h.trans (shown_bind r f))

theorem ite {c : Prop} [Decidable c] {u : Step α} {u' : Step β}
    (ht : t.Agree side φ flags V t') (hu : u.Agree side φ flags V u') :
    (if c then t else u).Agree side φ flags V (if c then t' else u') := by
  split
  · exact ht
  · exact hu

/-- Both steps need frames of the host. -/
theorem guard {k k' : Stack} (hk : k.Below k') {f : Stack → Step α} {f' : Stack → Step β}
    (hf : (f k).Agree side φ flags V (f' k')) :
    (Step.guard k f).Agree side φ flags V (Step.guard k' f') := by
  unfold Step.guard
  cases hover : k.overflow? with
  | some paren =>
    rw [hk.overflow hover]
    exact stop _
  | none =>
    cases k'.overflow? with
    | some paren => exact overflow paren
    | none => exact hf

/-- Only the second step needs frames of the host here. -/
theorem guard_right {k' : Stack} {f' : Stack → Step β}
    (hf : t.Agree side φ flags V (f' k')) : t.Agree side φ flags V (Step.guard k' f') := by
  unfold Step.guard
  cases k'.overflow? with
  | some paren => exact overflow paren
  | none => exact hf

theorem lift {o : Interpreter → Outcome α} {o' : Interpreter → Outcome β}
    {hq : ∀ s, (o s).Quiet s.machine} {hq' : ∀ s, (o' s).Quiet s.machine}
    (h : ∀ φ' s s', φ <+: φ' → s.Paired φ' flags s' → (o s).Paired φ' (V φ') (o' s')) :
    (Step.lift o hq).Agree side φ flags V (Step.lift o' hq') := by
  intro φ' s s' hφ hs
  have hrun := h φ' s s' hφ hs
  rw [run_lift, run_lift]
  generalize o s = r at hrun
  generalize o' s' = r' at hrun
  cases hrun with
  | done hm hV => exact .done (List.prefix_refl φ') ⟨hm, hs.scope, hs.globals, hs.globals'⟩ hV
  | stopped why h => exact .stopped why h

theorem ofExcept {e e' : Except Stop Value} (h : Matching (Value.Paired φ) e e') :
    (Step.ofExcept e).Agree side φ flags Value.Paired (Step.ofExcept e') := by
  refine lift fun φ' s s' hφ hs => hs.machine.ofExcept ?_
  cases h with
  | ok h => exact .ok (h.mono hφ)
  | error why => exact .error why

section Access

variable {scopes scopes' : Scopes} {v v' : Value}

theorem read (h : scopes.Spread flags scopes') (name : Token) :
    (Step.read name (scopes.address name)).Agree side φ flags Value.Paired
      (Step.read name (scopes'.address name)) := by
  refine lift fun φ' s s' _ hs => ?_
  obtain ⟨owner, owner', hframe, hfind, hfind', -, -⟩ := hs.owner h name
  rw [hfind, hfind']
  exact hs.machine.ofExcept (hs.machine.store.getHere hframe name)

theorem write (h : scopes.Spread flags scopes') (name : Token) (hv : v.Paired φ v') :
    (Step.write name v (scopes.address name)).Agree side φ flags Value.Paired
      (Step.write name v' (scopes'.address name)) := by
  refine lift fun φ' s s' hφ hs => ?_
  obtain ⟨owner, owner', hframe, -, -, hassign, hassign'⟩ := hs.owner h name
  rw [hassign, hassign']
  have hv' := hv.mono hφ
  exact hs.machine.update (hs.machine.store.assignHere hframe name hv') hv'

theorem define (hhead : flags.head? ≠ some true) (name : Token) (hv : v.Paired φ v') :
    (Step.define name v).Agree side φ flags (fun _ _ _ => True) (Step.define name v') :=
  lift fun _ _ _ hφ hs => hs.machine.define (hs.scope.head hhead) name (hv.mono hφ)

/-- The clock shows both runs the same. -/
theorem native {k k' : Stack} (hk : k.Below k') (f : Native) {vs vs' : List Value}
    (hvs : List.Forall₂ (Value.Paired φ) vs vs') :
    (Step.native k f vs).Agree side φ flags Value.Paired (Step.native k' f vs') := by
  refine lift fun φ' s s' _ hs => ?_
  have hm := hs.machine
  rw [Value.Alike.apply_eq (hvs.imp fun _ _ => Value.Paired.alike), hk.host, hm.readings]
  have hafter : (f.after s.machine).Paired φ' (f.after s'.machine) := by
    cases f with
    | clock => exact ⟨hm.store, hm.closures, congrArg (· + 1) hm.readings, hm.shown⟩
    | typeof => exact hm
  exact .done hafter (.plain fun g => apply_ne_closure _ f vs g)

theorem function (hhead : flags.head? ≠ some true) (name : Token) (params : List Token)
    (h : scopes.Spread (false :: flags) scopes') {body body' : List (Stmt Unit)}
    (hbody : Stmt.AllRecast body body') (hplaced : Stmt.AllPlaced body) :
    (Step.function name params (Stmt.resolveAll scopes body)).Agree side φ flags
      (fun _ _ _ => True) (Step.function name params (Stmt.resolveAll scopes' body')) := by
  refine lift fun φ' s s' _ hs => ?_
  have hclosures := hs.machine.closures
  rw [hclosures]
  have hm : Machine.Paired φ' { s.machine with closures := s.machine.closures + 1 }
      { s'.machine with closures := s.machine.closures + 1 } :=
    ⟨hs.machine.store, rfl, hs.machine.readings, hs.machine.shown⟩
  exact hm.define (hs.scope.head hhead) name
    (.closure s.machine.closures name params h hbody hplaced hs.scope)

theorem defineAll {scope scope' : Scope} (hscope : scope.Paired φ flags' scope')
    (hhead : flags'.head? ≠ some true) (params : List Token) {vs vs' : List Value}
    (hvs : List.Forall₂ (Value.Paired φ) vs vs') :
    (Step.defineAll scope params vs).Agree side φ flags (fun _ _ _ => True)
      (Step.defineAll scope' params vs') :=
  lift fun _ _ _ hφ hs => hs.machine.defineAll ((hscope.mono hφ).head hhead) params
    (hvs.imp fun _ _ hv => hv.mono hφ)

theorem print (hv : v.Paired φ v') :
    (Step.print v).Agree side φ flags (fun _ _ _ => True) (Step.print v') :=
  fun φ' _ _ hφ hs => .done (List.prefix_refl φ')
    ⟨hs.machine.print (hv.mono hφ), hs.scope, hs.globals, hs.globals'⟩ trivial

end Access

/-! Scopes. -/

variable {inner inner' outer outer' : Scope}

theorem scope : Step.scope.Agree side φ flags (fun φ' => Scope.Paired φ' flags) Step.scope :=
  fun φ' _ _ _ hs => .done (List.prefix_refl φ') hs hs.scope

/-- The new frames are paired. -/
theorem new (h : outer.Paired φ flags' outer') :
    (Step.new outer).Agree side φ flags (fun φ' => Scope.Paired φ' (false :: flags'))
      (Step.new outer') := by
  intro φ' s s' hφ hs
  have hstore := hs.machine.store
  have hφ' : φ' <+: φ' ++ [s'.machine.store.frames.size] := List.prefix_append _ _
  refine .done hφ' ⟨⟨hstore.grow, hs.machine.closures, hs.machine.readings, hs.machine.shown⟩,
    hs.scope.mono hφ', hs.globals, hs.globals'⟩ (.same ?_ (h.mono (hφ.trans hφ')))
  rw [← hstore.size]
  simp

theorem within (ht : t.Agree side φ flags' V t') (h : inner.Paired φ flags' inner') :
    (Step.within inner t).Agree side φ flags V (Step.within inner' t') := by
  intro φ' s s' hφ hs
  have hrun := ht φ' { s with scope := inner } { s' with scope := inner' } hφ
    ⟨hs.machine, h.mono hφ, hs.globals, hs.globals'⟩
  rw [run_within, run_within]
  generalize t.run { s with scope := inner } = r at hrun
  generalize t'.run { s' with scope := inner' } = r' at hrun
  cases hrun with
  | done hφ' hs₁ hV =>
    exact .done hφ' ⟨hs₁.machine, hs.scope.mono hφ', hs₁.globals, hs₁.globals'⟩ hV
  | stopped why h => exact .stopped why h
  | first hside h =>
    refine .first hside ?_
    rw [Course.state_back]
    exact h
  | second hside h =>
    refine .second hside ?_
    rw [Course.state_back]
    exact h
  | overflow paren h =>
    refine .overflow paren ?_
    rw [Course.state_back]
    exact h

/-- In braces a step finds the same variables, so many scopes further. -/
theorem braces (ht : t.Agree side φ (true :: flags) V t') :
    t.Agree side φ flags V (Step.scope.bind fun outer =>
      (Step.new outer).bind fun inner => Step.within inner t') := by
  intro φ' s s' hφ hs
  let inside : Interpreter :=
    { s' with
      machine := (s'.machine.enter s'.scope).2
      scopes := s'.scopes ++ [(s'.machine.enter s'.scope).1]
      scope := (s'.machine.enter s'.scope).1 }
  have hinside : s.Paired φ' (true :: flags) inside :=
    ⟨⟨hs.machine.store.grow_right, hs.machine.closures, hs.machine.readings, hs.machine.shown⟩,
      .extra _ hs.scope, hs.globals, hs.globals'⟩
  have hrun := ht φ' s inside hφ hinside
  have hlater := t.later s
  change (t.run s).Agree side φ' flags V ((t'.run inside).back s'.scope)
  generalize t.run s = r at hrun hlater
  generalize t'.run inside = r' at hrun
  cases hrun with
  | done hφ' hs₁ hV =>
    -- The first run never left its scope, and the second one is back in its own.
    have hscope := hs.scope.mono hφ'
    rw [← hlater.scope] at hscope
    exact .done hφ' ⟨hs₁.machine, hscope, hs₁.globals, hs₁.globals'⟩ hV
  | stopped why h => exact .stopped why h
  | first hside h =>
    refine .first hside ?_
    rw [Course.state_back]
    exact h
  | second hside h => exact .second hside h
  | overflow paren h => exact .overflow paren h

end Step.Agree
end Scriptlet

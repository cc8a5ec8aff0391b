import Scriptlet.Session

/-! Which names the frames of a store bind, and what evaluation does to them: none is ever lost, and
only declarations of the current scope add to a frame that was there before. -/
namespace Scriptlet

variable {α β : Type}

theorem Frame.lookup_cons (name z : String) (value : α) (f : Frame α) :
    List.lookup z ((name, value) :: f) = if z = name then some value else f.lookup z := by
  rw [List.lookup_cons]
  by_cases h : z = name
  · simp [h]
  · have hbeq : (z == name) = false := by simpa using h
    rw [hbeq, if_neg h]

@[simp] theorem Frame.binds_cons (name z : String) (value : α) (f : Frame α) :
    Frame.binds ((name, value) :: f) z = (z == name || Frame.binds f z) := by
  unfold Frame.binds
  rw [Frame.lookup_cons]
  by_cases h : z = name <;> simp [h]

theorem Frame.lookup_set (name z : String) (value : α) (f : Frame α) :
    (Frame.set name value f).lookup z =
      if z = name ∧ f.binds name = true then some value else f.lookup z := by
  induction f with
  | nil => simp [Frame.set, Frame.binds]
  | cons p f ih =>
    obtain ⟨n, v⟩ := p
    unfold Frame.set
    by_cases hn : n = name
    · subst hn
      rw [if_pos rfl, Frame.lookup_cons, Frame.lookup_cons]
      by_cases hz : z = n <;> simp [hz]
    · rw [if_neg hn, Frame.lookup_cons, Frame.lookup_cons, ih]
      by_cases hz : z = n
      · simp [hz, hn]
      · have hne : name ≠ n := fun h => hn h.symm
        simp [hz, hne]

@[simp] theorem Frame.binds_set (name z : String) (value : α) (f : Frame α) :
    (Frame.set name value f).binds z = f.binds z := by
  unfold Frame.binds
  rw [Frame.lookup_set]
  by_cases h : z = name ∧ f.binds name = true
  · rw [if_pos h, h.1]
    exact h.2.symm
  · rw [if_neg h]

namespace Store

variable {s s' s'' : Store α} {A : Nat → Prop}

@[simp] theorem frame_grow (f : Nat) : s.grow.frame f = s.frame f := by
  simp only [Store.grow, Store.frame, Array.getD_eq_getD_getElem?, Array.getElem?_push]
  split
  next h => simp [h]
  next => rfl

theorem frame_modify {i f : Nat} {g : Frame α → Frame α} (h : i < s.frames.size) :
    Store.frame ⟨s.frames.modify i g⟩ f = if f = i then g (s.frame i) else s.frame f := by
  simp only [Store.frame, Array.getD_eq_getD_getElem?, Array.getElem?_modify]
  by_cases hf : f = i
  · subst hf
    simp [h]
  · have hne : i ≠ f := fun h => hf h.symm
    simp [hf, hne]

theorem frame_modify_of_le {i f : Nat} {g : Frame α → Frame α} (h : s.frames.size ≤ i) :
    Store.frame ⟨s.frames.modify i g⟩ f = s.frame f := by
  simp only [Store.frame, Array.getD_eq_getD_getElem?, Array.getElem?_modify]
  by_cases hf : i = f
  · subst hf
    simp [Nat.not_lt.2 h]
  · simp [hf]

theorem frame_of_le {f : Nat} (h : s.frames.size ≤ f) : s.frame f = [] := by
  simp [Store.frame, Array.getD_eq_getD_getElem?, h]

/-- No frame loses a name, and of the frames that were there only those in `A` gain any. -/
structure Keeps (A : Nat → Prop) (s s' : Store α) : Prop where
  size : s.frames.size ≤ s'.frames.size
  gain (f : Nat) (z : String) : (s.frame f).binds z = true → (s'.frame f).binds z = true
  same (f : Nat) (z : String) : f < s.frames.size → ¬ A f → (s'.frame f).binds z = true →
    (s.frame f).binds z = true

theorem Keeps.refl (A : Nat → Prop) (s : Store α) : s.Keeps A s :=
  ⟨Nat.le_refl _, fun _ _ h => h, fun _ _ _ _ h => h⟩

theorem Keeps.trans (h : s.Keeps A s') (h' : s'.Keeps A s'') : s.Keeps A s'' where
  size := Nat.le_trans h.size h'.size
  gain f z hz := h'.gain f z (h.gain f z hz)
  same f z hf hA hz := h.same f z hf hA (h'.same f z (Nat.lt_of_lt_of_le hf h.size) hA hz)

theorem Keeps.mono {B : Nat → Prop} (h : s.Keeps A s') (hAB : ∀ f, A f → B f) : s.Keeps B s' :=
  ⟨h.size, h.gain, fun f z hf hB => h.same f z hf fun hA => hB (hAB f hA)⟩

theorem Keeps.binds_eq (h : s.Keeps A s') {f : Nat} (hf : f < s.frames.size) (hA : ¬ A f)
    (z : String) : (s'.frame f).binds z = (s.frame f).binds z := by
  rw [Bool.eq_iff_iff]
  exact ⟨h.same f z hf hA, h.gain f z⟩

theorem keeps_grow (A : Nat → Prop) : s.Keeps A s.grow :=
  ⟨by simp [Store.grow], fun _ _ h => by simpa using h, fun _ _ _ _ h => by simpa using h⟩

/-- What happens in a scope that is entered only now does not show in the frames before it. -/
theorem Keeps.leave (h : s.grow.Keeps (· = s.frames.size) s') : s.Keeps A s' where
  size := Nat.le_trans (keeps_grow A).size h.size
  gain f z hz := h.gain f z (by simpa using hz)
  same f z hf _ hz := by
    have hne : f ≠ s.frames.size := Nat.ne_of_lt hf
    simpa using h.same f z (Nat.lt_of_lt_of_le hf (keeps_grow A).size) hne hz

theorem keeps_set (A : Nat → Prop) (scope : Scope) (name : String) (value : α) :
    s.Keeps A (s.set scope name value) := by
  have hbinds (f : Nat) (z : String) :
      ((s.set scope name value).frame f).binds z = (s.frame f).binds z := by
    unfold Store.set
    rcases Nat.lt_or_ge scope.frame s.frames.size with h | h
    · rw [frame_modify h]
      split
      next hf => simp [hf]
      next => rfl
    · rw [frame_modify_of_le h]
  exact ⟨by simp [Store.set], fun f z h => by rw [hbinds, h], fun f z _ _ h => by rwa [hbinds] at h⟩

theorem frame_add {scope : Scope} {name : String} {value : α} {f : Nat}
    (h : scope.frame < s.frames.size) :
    (s.add scope name value).frame f =
      if f = scope.frame then (name, value) :: s.frame scope.frame else s.frame f :=
  frame_modify h

theorem keeps_add {scope : Scope} {name : String} {value : α} (h : A scope.frame) :
    s.Keeps A (s.add scope name value) := by
  refine ⟨by simp [Store.add], fun f z hz => ?_, fun f z hf hA hz => ?_⟩
  · rcases Nat.lt_or_ge scope.frame s.frames.size with hs | hs
    · rw [frame_add hs]
      split
      next hf => subst hf; simp [hz]
      next => exact hz
    · rwa [Store.add, frame_modify_of_le hs]
  · have hne : f ≠ scope.frame := fun he => hA (he ▸ h)
    rcases Nat.lt_or_ge scope.frame s.frames.size with hs | hs
    · rwa [frame_add hs, if_neg hne] at hz
    · rwa [Store.add, frame_modify_of_le hs] at hz

/-! What the variables of a changed store have is the new value, or was there before. -/

theorem lookup_of_modify {i f : Nat} {g : Frame α → Frame α} {z : String} {v value : α}
    (hg : (g (s.frame i)).lookup z = some v → v = value ∨ (s.frame i).lookup z = some v)
    (h : (Store.frame ⟨s.frames.modify i g⟩ f).lookup z = some v) :
    v = value ∨ (s.frame f).lookup z = some v := by
  rcases Nat.lt_or_ge i s.frames.size with hi | hi
  · rw [frame_modify hi] at h
    split at h
    next hf => exact hf ▸ hg h
    next => exact .inr h
  · rw [frame_modify_of_le hi] at h
    exact .inr h

theorem lookup_of_add {scope : Scope} {name z : String} {v value : α} {f : Nat}
    (h : ((s.add scope name value).frame f).lookup z = some v) :
    v = value ∨ (s.frame f).lookup z = some v :=
  lookup_of_modify (fun hg => by
    rw [Frame.lookup_cons] at hg
    split at hg
    · exact .inl (Option.some.inj hg).symm
    · exact .inr hg) h

theorem lookup_of_set {scope : Scope} {name z : String} {v value : α} {f : Nat}
    (h : ((s.set scope name value).frame f).lookup z = some v) :
    v = value ∨ (s.frame f).lookup z = some v :=
  lookup_of_modify (fun hg => by
    rw [Frame.lookup_set] at hg
    split at hg
    · exact .inl (Option.some.inj hg).symm
    · exact .inr hg) h

theorem get_globals (s : Store α) (name : Token) :
    s.get Machine.globals name = s.getHere Machine.globals name := by
  unfold Store.get Machine.globals Store.find?
  cases h : (s.frame 0).binds name.lexeme with
  | true => rfl
  | false =>
    unfold Frame.binds at h
    rw [Option.isSome_eq_false_iff, Option.isNone_iff_eq_none] at h
    have hread : s.read? (.root 0) name.lexeme = none := h
    simp [Store.getHere, hread]

theorem assign_globals (s : Store α) (name : Token) (v : α) :
    s.assign Machine.globals name v = s.assignHere Machine.globals name v := by
  unfold Store.assign Machine.globals Store.find?
  cases h : (s.frame 0).binds name.lexeme with
  | true => rfl
  | false =>
    have hbinds : s.binds (.root 0) name.lexeme = false := h
    simp [Store.assignHere, hbinds]

theorem define_eq_ok {scope : Scope} {name : Token} {value : α} :
    s.define scope name value = .ok s' ↔
      s.binds scope name.lexeme = false ∧ s' = s.add scope name.lexeme value := by
  unfold Store.define
  split
  next h => simp [h]
  next h => simp [h, eq_comm]

theorem getHere_eq_ok {scope : Scope} {name : Token} {v : α} :
    s.getHere scope name = .ok v ↔ s.read? scope name.lexeme = some v := by
  unfold Store.getHere
  split
  next h => simp [h]
  next h => simp [h]

theorem assignHere_eq_ok {scope : Scope} {name : Token} {v : α} :
    s.assignHere scope name v = .ok s' ↔
      s.binds scope name.lexeme = true ∧ s' = s.set scope name.lexeme v := by
  unfold Store.assignHere
  split
  next h => simp [h, eq_comm]
  next h => simp [h]

/-! Whether a variable is searched for or jumped to, it is one of some scope. -/

theorem read_of_get {scope : Scope} {name : Token} {v : α} (h : s.get scope name = .ok v) :
    ∃ owner, s.read? owner name.lexeme = some v := by
  unfold Store.get at h
  split at h
  next owner _ => exact ⟨owner, getHere_eq_ok.1 h⟩
  next => cases h

theorem read_of_getAt {scope : Scope} {d : Int} {name : Token} {v : α}
    (h : s.getAt scope d name = .ok v) : ∃ owner, s.read? owner name.lexeme = some v := by
  unfold Store.getAt at h
  split at h
  next owner _ => exact ⟨owner, getHere_eq_ok.1 h⟩
  next => cases h

theorem set_of_assign {scope : Scope} {name : Token} {v : α}
    (h : s.assign scope name v = .ok s') : ∃ owner, s' = s.set owner name.lexeme v := by
  unfold Store.assign at h
  split at h
  next owner _ => exact ⟨owner, (assignHere_eq_ok.1 h).2⟩
  next => cases h

theorem set_of_assignAt {scope : Scope} {d : Int} {name : Token} {v : α}
    (h : s.assignAt scope d name v = .ok s') : ∃ owner, s' = s.set owner name.lexeme v := by
  unfold Store.assignAt at h
  split at h
  next owner _ => exact ⟨owner, (assignHere_eq_ok.1 h).2⟩
  next => cases h

end Store

/-- A scope that is entered now has no names yet. -/
theorem Machine.define_of_free {m : Machine} {scope : Scope} {name : Token}
    (h : m.store.binds scope name.lexeme = false) (v : Value) :
    m.define scope name v = .done () { m with store := m.store.add scope name.lexeme v } := by
  rw [define, Store.define_eq_ok.2 ⟨h, rfl⟩]
  rfl

@[simp] theorem Machine.binds_enter (m : Machine) (outer : Scope) (z : String) :
    (m.enter outer).2.store.binds (m.enter outer).1 z = false := by
  change (m.store.grow.frame m.store.frames.size).binds z = false
  rw [Store.frame_grow, Store.frame_of_le (Nat.le_refl _)]
  rfl

/-- What holds of the machine a step ends with, whatever way it ends. -/
def Outcome.Leaves (o : Outcome α) (P : Machine → Prop) : Prop :=
  match o with
  | .done _ m | .stopped _ m | .outOfFuel m => P m

/-- A step that leaves the names of the store alone, but for those frames. -/
abbrev Outcome.Keeps (o : Outcome α) (A : Nat → Prop) (s : Store Value) : Prop :=
  o.Leaves fun m => s.Keeps A m.store

variable {A : Nat → Prop} {s : Store Value} {m : Machine}

theorem Outcome.Keeps.bind {o : Outcome α} {f : α → Machine → Outcome β} (ho : o.Keeps A s)
    (hf : ∀ a m, o = .done a m → (f a m).Keeps A m.store) : (o.bind f).Keeps A s := by
  cases o with
  | stopped why m | outOfFuel m => exact ho
  | done a m =>
    have ho : s.Keeps A m.store := ho
    have hnext := hf a m rfl
    rw [Outcome.bind_done]
    cases hfm : f a m with
    | done b m' | stopped why m' | outOfFuel m' =>
      rw [hfm] at hnext
      exact ho.trans hnext

/-- A step for which there are not enough frames changes nothing. -/
theorem Outcome.Keeps.guard {c : Context} {f : Context → Outcome α}
    (hf : (f c).Keeps A m.store) : (c.guard m f).Keeps A m.store := by
  unfold Context.guard
  split
  · exact Store.Keeps.refl A m.store
  · exact hf

/-- A step that runs in a scope of its own. -/
theorem Outcome.Keeps.leave {o : Outcome α} (ho : o.Keeps (· = s.frames.size) s.grow) :
    o.Keeps A s := by
  cases o with
  | done a m | stopped why m | outOfFuel m => exact Store.Keeps.leave ho

theorem keeps_done (A : Nat → Prop) (a : α) (m : Machine) :
    (Outcome.done a m).Keeps A m.store := Store.Keeps.refl A m.store

theorem keeps_stopped (A : Nat → Prop) (why : Stop) (m : Machine) :
    (Outcome.stopped why m : Outcome α).Keeps A m.store := Store.Keeps.refl A m.store

theorem keeps_ofExcept (A : Nat → Prop) (m : Machine) (e : Except Stop α) :
    (Outcome.ofExcept m e).Keeps A m.store := by
  cases e <;> exact Store.Keeps.refl A m.store

theorem keeps_read (A : Nat → Prop) (m : Machine) (c : Context) (name : Token)
    (address : Address) : (m.read c name address).Keeps A m.store := by
  cases address <;> exact keeps_ofExcept A m _

theorem keeps_update {a : α} {e : Except Stop (Store Value)}
    (h : ∀ s, e = .ok s → m.store.Keeps A s) : (m.update a e).Keeps A m.store := by
  cases e with
  | ok s => exact h s rfl
  | error why => exact Store.Keeps.refl A m.store

theorem keeps_assign {scope : Scope} {name : Token} {value : Value} {s s' : Store Value}
    (h : s.assign scope name value = .ok s') : s.Keeps A s' := by
  obtain ⟨owner, rfl⟩ := Store.set_of_assign h
  exact Store.keeps_set A owner name.lexeme value

theorem keeps_assignAt {scope : Scope} {d : Int} {name : Token} {value : Value}
    {s s' : Store Value} (h : s.assignAt scope d name value = .ok s') : s.Keeps A s' := by
  obtain ⟨owner, rfl⟩ := Store.set_of_assignAt h
  exact Store.keeps_set A owner name.lexeme value

theorem keeps_write (A : Nat → Prop) (m : Machine) (c : Context) (name : Token) (value : Value)
    (address : Address) : (m.write c name value address).Keeps A m.store := by
  cases address with
  | global => exact keeps_update fun s hs => keeps_assign hs
  | up d => exact keeps_update fun s hs => keeps_assignAt hs

theorem keeps_define {scope : Scope} {name : Token} {value : Value} (h : A scope.frame) :
    (m.define scope name value).Keeps A m.store := by
  apply keeps_update
  intro s hs
  obtain ⟨-, rfl⟩ := Store.define_eq_ok.1 hs
  exact Store.keeps_add h

theorem keeps_defineAll {scope : Scope} (h : A scope.frame) (ps : List Token) (vs : List Value)
    (m : Machine) : (Machine.defineAll scope ps vs m).Keeps A m.store := by
  induction ps generalizing vs m with
  | nil => exact keeps_done A () m
  | cons p ps ih =>
    cases vs with
    | nil => exact keeps_done A () m
    | cons v vs => exact (keeps_define h).bind fun _ m _ => ih vs m

mutual

/-- The statement declares something in the scope it stands in. -/
def Stmt.declares {ρ : Type} : Stmt ρ → Bool
  | .var _ _ | .function _ _ _ => true
  | .ifThen _ body | .loop _ body | .doLoop body _ => body.declares
  | .ifElse _ first second | .loopStep _ first second => first.declares || second.declares
  | .switch _ arms => arms.declares
  | .block _ | .jump _ _ | .expression _ | .print _ | .give _ _ => false

def Arms.declares {ρ : Type} : Arms ρ → Bool
  | .done => false
  | .otherwise body => body.declares
  | .case _ body rest => body.declares || rest.declares

end

/-- What evaluation with this much fuel adds to the frames that were there. -/
structure KeepingEval (n : Nat) : Prop where
  eval (A : Nat → Prop) (c : Context) (e : Expr Address) (m : Machine) :
    (eval n c e m).Keeps A m.store
  evalAll (A : Nat → Prop) (c : Context) (es : List (Expr Address)) (m : Machine) :
    (evalAll n c es m).Keeps A m.store
  call (A : Nat → Prop) (c : Context) (paren : Token) (f : Callee) (vs : List Value)
    (m : Machine) : (call n c paren f vs m).Keeps A m.store
  exec {A : Nat → Prop} {c : Context} {st : Stmt Address} (m : Machine)
    (h : st.declares = true → A c.scope.frame) : (exec n c st m).Keeps A m.store
  execAll {A : Nat → Prop} {c : Context} (ss : List (Stmt Address)) (m : Machine)
    (h : A c.scope.frame) : (execAll n c ss m).Keeps A m.store
  execLoop {A : Nat → Prop} {c : Context} (condition : Expr Address) {body : Stmt Address}
    {step : Option (Stmt Address)} (m : Machine) (hbody : body.declares = true → A c.scope.frame)
    (hstep : ∀ st ∈ step, st.declares = true → A c.scope.frame) :
    (execLoop n c condition body step m).Keeps A m.store
  execDo {A : Nat → Prop} {c : Context} {body : Stmt Address} (condition : Expr Address)
    (m : Machine) (h : body.declares = true → A c.scope.frame) :
    (execDo n c body condition m).Keeps A m.store
  execArms {A : Nat → Prop} {c : Context} (subject : Value) {as : Arms Address} (m : Machine)
    (h : as.declares = true → A c.scope.frame) : (execArms n c subject as m).Keeps A m.store

variable {n : Nat}

theorem keeps_eval_succ (ih : KeepingEval n) (A : Nat → Prop) (c : Context) (e : Expr Address)
    (m : Machine) : (eval (n + 1) c e m).Keeps A m.store := by
  rw [eval]
  refine .guard ?_
  cases e with
  | literal value => exact keeps_done A _ m
  | reference name address => exact keeps_read A m _ name address
  | grouping inner => exact ih.eval A _ inner m
  | assign name value address =>
    exact (ih.eval A _ value m).bind fun v m _ => keeps_write A m _ name v address
  | unary operator right =>
    exact (ih.eval A _ right m).bind fun v m _ => keeps_ofExcept A m _
  | conditional condition yes no =>
    refine (ih.eval A _ condition m).bind fun v m _ => ?_
    split
    · exact ih.eval A _ yes m
    · exact ih.eval A _ no m
  | binary left operator right =>
    refine (ih.eval A _ left m).bind fun l m _ => ?_
    split
    · split
      · exact ih.eval A _ right m
      · exact keeps_done A l m
    · split
      · exact keeps_done A l m
      · exact ih.eval A _ right m
    · exact (ih.eval A _ right m).bind fun r m _ => keeps_ofExcept A m _
  | call callee paren arguments =>
    refine (ih.eval A _ callee m).bind fun v m _ => ?_
    split
    · exact keeps_stopped A _ m
    · exact (ih.evalAll A _ arguments m).bind fun vs m _ => ih.call A _ paren _ vs m

theorem keeps_call_succ (ih : KeepingEval n) (A : Nat → Prop) (c : Context) (paren : Token)
    (f : Callee) (vs : List Value) (m : Machine) :
    (call (n + 1) c paren f vs m).Keeps A m.store := by
  unfold call
  split
  · exact keeps_stopped A _ m
  · refine .guard ?_
    cases f with
    | native f =>
      have hstore : (f.after m).store = m.store := f.store_after m
      exact hstore ▸ keeps_done A _ (f.after m)
    | closure f =>
      -- all that the body declares is in the scope of the call
      apply Outcome.Keeps.leave
      have hparams : (Machine.defineAll (m.enter f.scope).1 f.params vs (m.enter f.scope).2).Keeps
          (· = m.store.frames.size) m.store.grow := by
        apply keeps_defineAll
        rfl
      refine hparams.bind fun _ m' _ => ?_
      apply Outcome.Keeps.bind
      · apply ih.execAll
        rfl
      · exact fun flow m' _ => keeps_done _ _ m'

theorem keeps_exec_succ (ih : KeepingEval n) {A : Nat → Prop} {c : Context} {st : Stmt Address}
    (m : Machine) (h : st.declares = true → A c.scope.frame) :
    (exec (n + 1) c st m).Keeps A m.store := by
  rw [exec]
  refine .guard ?_
  cases st with
  | block body =>
    apply Outcome.Keeps.leave
    exact ih.execAll body (m.enter c.scope).2 rfl
  | jump j keyword => exact keeps_done A _ m
  | doLoop body condition => exact ih.execDo condition m h
  | expression value =>
    exact (ih.eval A _ value m).bind fun v m _ => keeps_done A _ m
  | function name params body =>
    exact (keeps_define (h rfl)).bind fun _ m _ => keeps_done A _ m
  | ifThen condition yes =>
    refine (ih.eval A _ condition m).bind fun v m _ => ?_
    split
    · exact ih.exec m h
    · exact keeps_done A _ m
  | ifElse condition yes no =>
    refine (ih.eval A _ condition m).bind fun v m _ => ?_
    split
    · exact ih.exec m fun hd => h (by simp [Stmt.declares, hd])
    · exact ih.exec m fun hd => h (by simp [Stmt.declares, hd])
  | print value =>
    exact (ih.eval A _ value m).bind fun v m _ => keeps_done A _ (m.print v)
  | give keyword value =>
    cases value with
    | none => exact keeps_done A _ m
    | some e => exact (ih.eval A _ e m).bind fun v m _ => keeps_done A _ m
  | switch subject arms =>
    exact (ih.eval A _ subject m).bind fun v m _ => ih.execArms v m h
  | var name init =>
    cases init with
    | none => exact (keeps_define (h rfl)).bind fun _ m _ => keeps_done A _ m
    | some e =>
      exact (ih.eval A _ e m).bind fun v m _ =>
        (keeps_define (h rfl)).bind fun _ m _ => keeps_done A _ m
  | loop condition body => exact ih.execLoop condition m h (by simp)
  | loopStep condition body step =>
    refine ih.execLoop condition m (fun hd => h (by simp [Stmt.declares, hd])) ?_
    intro st hst hd
    obtain rfl := Option.mem_some.1 hst
    exact h (by simp [Stmt.declares, hd])

theorem keeps_execLoop_succ (ih : KeepingEval n) {A : Nat → Prop} {c : Context}
    (condition : Expr Address) {body : Stmt Address} {step : Option (Stmt Address)} (m : Machine)
    (hbody : body.declares = true → A c.scope.frame)
    (hstep : ∀ st ∈ step, st.declares = true → A c.scope.frame) :
    (execLoop (n + 1) c condition body step m).Keeps A m.store := by
  rw [execLoop]
  refine (ih.eval A c condition m).bind fun v m _ => ?_
  split
  · refine (ih.exec m hbody).bind fun flow m _ => ?_
    have hagain (m : Machine) := ih.execLoop condition m hbody hstep
    cases flow with
    | normal => cases step with
      | none => exact hagain m
      | some st => exact (ih.exec m (hstep st rfl)).bind fun _ m _ => hagain m
    | give v => exact keeps_done A _ m
    | jump j => cases j with
      | exit => exact keeps_done A _ m
      | again => cases step with
        | none => exact hagain m
        | some st => exact (ih.exec m (hstep st rfl)).bind fun _ m _ => hagain m
  · exact keeps_done A _ m

theorem keeps_execDo_succ (ih : KeepingEval n) {A : Nat → Prop} {c : Context}
    {body : Stmt Address} (condition : Expr Address) (m : Machine)
    (h : body.declares = true → A c.scope.frame) :
    (execDo (n + 1) c body condition m).Keeps A m.store := by
  rw [execDo]
  refine (ih.exec m h).bind fun flow m _ => ?_
  have hnext : ((eval n c condition m).bind fun v m =>
      if v.isTruthy then execDo n c body condition m else .done .normal m).Keeps A m.store := by
    refine (ih.eval A c condition m).bind fun v m _ => ?_
    split
    · exact ih.execDo condition m h
    · exact keeps_done A _ m
  cases flow with
  | normal => exact hnext
  | give v => exact keeps_done A _ m
  | jump j => cases j with
    | exit => exact keeps_done A _ m
    | again => exact hnext

theorem keepingEval (n : Nat) : KeepingEval n := by
  induction n with
  | zero => constructor <;> intros <;> exact Store.Keeps.refl _ _
  | succ n ih =>
    refine ⟨keeps_eval_succ ih, fun A c es m => ?_, keeps_call_succ ih, keeps_exec_succ ih,
      fun ss m h => ?_, keeps_execLoop_succ ih, keeps_execDo_succ ih, fun subject as m h => ?_⟩
    · cases es with
      | nil => exact keeps_done A _ m
      | cons e es =>
        exact (ih.eval A c e m).bind fun v m _ =>
          (ih.evalAll A c es m).bind fun vs m _ => keeps_done A _ m
    · cases ss with
      | nil => exact keeps_done _ _ m
      | cons s ss =>
        rw [execAll]
        refine (ih.exec m fun _ => h).bind fun flow m _ => ?_
        cases flow with
        | normal => exact ih.execAll ss m h
        | give v | jump j => exact keeps_done _ _ m
    · cases as with
      | done => exact keeps_done _ _ m
      | otherwise body => exact ih.exec m h
      | case condition body rest =>
        rw [execArms]
        refine (ih.eval _ _ condition m).bind fun v m _ => ?_
        split
        · exact ih.exec m fun hd => h (by simp [Arms.declares, hd])
        · exact ih.execArms subject m fun hd => h (by simp [Arms.declares, hd])

end Scriptlet

import Scriptlet.Proofs.Braces.Trees
import Scriptlet.Proofs.Evaluation.Alike
import Scriptlet.Proofs.Evaluation.Frames
import Scriptlet.Proofs.Interpreter.Run

/-! The scopes, values and variables of a run and of the same run of the program in other scopes. -/
namespace Scriptlet

/-! The list `φ` has for each frame of the first run the frame of the second one that it is paired
with. The second run has other frames too, which are empty. -/

/-- The second scope is the first one with the frames paired, and with scopes more that the flags
tell. -/
inductive Scope.Paired (φ : List Nat) : List Bool → Scope → Scope → Prop where
  | top (h : φ[0]? = some 0) : Paired φ [] (.root 0) (.root 0)
  | same {flags : List Bool} {f f' : Nat} {outer outer' : Scope} (h : φ[f]? = some f')
    (houter : Paired φ flags outer outer') :
    Paired φ (false :: flags) (.inner f outer) (.inner f' outer')
  | extra {flags : List Bool} {scope scope' : Scope} (f' : Nat) (h : Paired φ flags scope scope') :
    Paired φ (true :: flags) scope (.inner f' scope')

variable {φ φ' : List Nat} {flags : List Bool}

namespace Scope.Paired

variable {scope scope' : Scope}

theorem mono (h : scope.Paired φ flags scope') (hφ : φ <+: φ') :
    scope.Paired φ' flags scope' := by
  induction h with
  | top h => exact .top (get_later hφ h)
  | same h _ ih => exact .same (get_later hφ h) ih
  | extra f' _ ih => exact .extra f' ih

theorem head (h : scope.Paired φ flags scope') (hhead : flags.head? ≠ some true) :
    φ[scope.frame]? = some scope'.frame := by
  cases h with
  | top h => exact h
  | same h => exact h
  | extra => exact absurd rfl hhead

/-- So many scopes outward there are paired scopes. -/
theorem up {d d' : Nat} (h : scope.Paired φ flags scope') (hd : Shift flags d d') :
    ∃ owner owner', scope.up? d = some owner ∧ scope'.up? d' = some owner' ∧
      φ[owner.frame]? = some owner'.frame := by
  induction hd generalizing scope scope' with
  | here =>
    have hframe := h.head (by simp)
    exact ⟨scope, scope', by cases scope <;> rfl, by cases scope' <;> rfl, hframe⟩
  | next _ ih => cases h with
    | same _ houter => exact ih houter
  | extra _ ih => cases h with
    | extra _ h => exact ih h

end Scope.Paired

/-- The same value in both runs. The bodies of functions may differ by scopes. -/
inductive Value.Paired (φ : List Nat) : Value → Value → Prop where
  | plain {v : Value} (h : ∀ f, v ≠ .closure f) : Paired φ v v
  | closure {flags : List Bool} {scopes scopes' : Scopes} {body body' : List (Stmt Unit)}
    {scope scope' : Scope} (serial : Nat) (name : Token) (params : List Token)
    (hscopes : scopes.Spread (false :: flags) scopes') (hbody : Stmt.AllRecast body body')
    (hplaced : Stmt.AllPlaced body) (hscope : scope.Paired φ flags scope') :
    Paired φ (.closure ⟨serial, name, params, Stmt.resolveAll scopes body, scope⟩)
      (.closure ⟨serial, name, params, Stmt.resolveAll scopes' body', scope'⟩)

namespace Value.Paired

variable {v v' : Value}

theorem mono (h : v.Paired φ v') (hφ : φ <+: φ') : v.Paired φ' v' := by
  cases h with
  | plain h => exact .plain h
  | closure serial name params hscopes hbody hplaced hscope =>
    exact .closure serial name params hscopes hbody hplaced (hscope.mono hφ)

theorem alike (h : v.Paired φ v') : v.Alike v' := by
  cases h with
  | plain => exact .same v
  | closure => exact .closure rfl

theorem print_eq (h : v.Paired φ v') : v'.print = v.print := by
  cases h <;> rfl

end Value.Paired

/-- The variables of paired frames. -/
abbrev Frame.Paired (φ : List Nat) : Frame Value → Frame Value → Prop :=
  Frame.Matches (fun _ => True) id (Value.Paired φ)

theorem Frame.Paired.mono {f f' : Frame Value} (h : Frame.Paired φ f f') (hφ : φ <+: φ') :
    Frame.Paired φ' f f' :=
  h.imp fun _ _ ⟨_, hname, hv⟩ => ⟨trivial, hname, hv.mono hφ⟩

/-- All variables in both runs. No two frames are paired with the same one. -/
structure Store.Paired (φ : List Nat) (s s' : Store Value) : Prop where
  size : φ.length = s.frames.size
  lt (f' : Nat) (h : f' ∈ φ) : f' < s'.frames.size
  nodup : φ.Nodup
  root : φ[0]? = some 0
  frames (f f' : Nat) (h : φ[f]? = some f') : Frame.Paired φ (s.frame f) (s'.frame f')

/-- Both accesses fail for the same reason, or the results are related. -/
inductive Matching {α β : Type} (R : α → β → Prop) : Except Stop α → Except Stop β → Prop where
  | ok {a : α} {b : β} (h : R a b) : Matching R (.ok a) (.ok b)
  | error (why : Stop) : Matching R (.error why) (.error why)

namespace Store.Paired

variable {s s' : Store Value} {scope scope' : Scope} {v v' : Value}

/-- A frame more in both runs. -/
theorem grow (h : s.Paired φ s') : s.grow.Paired (φ ++ [s'.frames.size]) s'.grow := by
  have hφ : φ <+: φ ++ [s'.frames.size] := List.prefix_append φ _
  refine ⟨by simp [Store.grow, h.size], fun f' hf' => ?_, ?_, get_later hφ h.root,
    fun f f' hf => ?_⟩
  · simp only [Store.grow, Array.size_push]
    rcases List.mem_append.1 hf' with hf' | hf'
    · exact Nat.lt_succ_of_lt (h.lt f' hf')
    · rw [List.mem_singleton.1 hf']
      exact Nat.lt_succ_self _
  · refine List.nodup_append.2 ⟨h.nodup, List.pairwise_singleton _ _, fun f' hf' g hg => ?_⟩
    rw [List.mem_singleton.1 hg]
    exact Nat.ne_of_lt (h.lt f' hf')
  · rw [Store.frame_grow, Store.frame_grow]
    rcases Nat.lt_or_ge f φ.length with hlt | hge
    · rw [List.getElem?_append_left hlt] at hf
      exact (h.frames f f' hf).mono hφ
    · obtain ⟨-, rfl⟩ : f - φ.length = 0 ∧ s'.frames.size = f' := by
        simpa [List.getElem?_append_right hge, List.getElem?_singleton] using hf
      rw [Store.frame_of_le (h.size ▸ hge), Store.frame_of_le (Nat.le_refl _)]
      exact .nil

/-- A frame more in the second run only. -/
theorem grow_right (h : s.Paired φ s') : s.Paired φ s'.grow where
  size := h.size
  lt f' hf' := by
    simp only [Store.grow, Array.size_push]
    exact Nat.lt_succ_of_lt (h.lt f' hf')
  nodup := h.nodup
  root := h.root
  frames f f' hf := by
    rw [Store.frame_grow]
    exact h.frames f f' hf

/-- Paired frames change in the same way. -/
theorem modify (h : s.Paired φ s') {f f' : Nat} (hf : φ[f]? = some f')
    {g g' : Frame Value → Frame Value}
    (hg : Frame.Paired φ (g (s.frame f)) (g' (s'.frame f'))) :
    Store.Paired φ ⟨s.frames.modify f g⟩ ⟨s'.frames.modify f' g'⟩ := by
  obtain ⟨hlt, hget⟩ := List.getElem?_eq_some_iff.1 hf
  have hlt' : f' < s'.frames.size := h.lt f' (List.mem_of_getElem? hf)
  refine ⟨by simp [h.size], by simpa using h.lt, h.nodup, h.root, fun i i' hi => ?_⟩
  rw [Store.frame_modify (h.size ▸ hlt), Store.frame_modify hlt']
  by_cases hsame : i = f
  · subst hsame
    obtain rfl : f' = i' := Option.some.inj (hf.symm.trans hi)
    rw [if_pos rfl, if_pos rfl]
    exact hg
  · -- No other frame is paired with the one that changes.
    have hother : i' ≠ f' := by
      rintro rfl
      exact hsame ((List.getElem?_inj hlt h.nodup).1 (hf.trans hi.symm)).symm
    rw [if_neg hsame, if_neg hother]
    exact h.frames i i' hi

theorem lookup (h : s.Paired φ s') (hscope : φ[scope.frame]? = some scope'.frame) (z : String) :
    (s.read? scope z = none ∧ s'.read? scope' z = none) ∨
      ∃ v v', s.read? scope z = some v ∧ s'.read? scope' z = some v' ∧ v.Paired φ v' :=
  (h.frames _ _ hscope).lookup (fun _ _ _ _ he => he) trivial

theorem binds_eq (h : s.Paired φ s') (hscope : φ[scope.frame]? = some scope'.frame) (z : String) :
    s'.binds scope' z = s.binds scope z :=
  (h.frames _ _ hscope).binds (fun _ _ _ _ he => he) trivial

theorem getHere (h : s.Paired φ s') (hscope : φ[scope.frame]? = some scope'.frame)
    (name : Token) :
    Matching (Value.Paired φ) (s.getHere scope name) (s'.getHere scope' name) := by
  unfold Store.getHere
  rcases h.lookup hscope name.lexeme with ⟨hnone, hnone'⟩ | ⟨v, v', hsome, hsome', hv⟩
  · rw [hnone, hnone']
    exact .error _
  · rw [hsome, hsome']
    exact .ok hv

theorem assignHere (h : s.Paired φ s') (hscope : φ[scope.frame]? = some scope'.frame)
    (name : Token) (hv : v.Paired φ v') :
    Matching (Store.Paired φ) (s.assignHere scope name v) (s'.assignHere scope' name v') := by
  unfold Store.assignHere
  rw [h.binds_eq hscope]
  split
  · exact .ok (h.modify hscope ((h.frames _ _ hscope).set (fun _ _ _ _ he => he) trivial hv))
  · exact .error _

theorem define (h : s.Paired φ s') (hscope : φ[scope.frame]? = some scope'.frame)
    (name : Token) (hv : v.Paired φ v') :
    Matching (Store.Paired φ) (s.define scope name v) (s'.define scope' name v') := by
  unfold Store.define
  rw [h.binds_eq hscope]
  split
  · exact .error _
  · exact .ok (h.modify hscope (.cons ⟨trivial, rfl, hv⟩ (h.frames _ _ hscope)))

end Store.Paired

/-- The lines that have been printed. -/
def Machine.shown (m : Machine) : List String := m.printed.toList.map Value.print

structure Machine.Paired (φ : List Nat) (m m' : Machine) : Prop where
  store : m.store.Paired φ m'.store
  closures : m'.closures = m.closures
  readings : m'.readings = m.readings
  shown : m'.shown = m.shown

/-- Both steps end in the same way, with related results. -/
inductive Outcome.Paired {α β : Type} (φ : List Nat) (R : α → β → Prop) :
    Outcome α → Outcome β → Prop where
  | done {a : α} {b : β} {m m' : Machine} (hm : m.Paired φ m') (h : R a b) :
    Paired φ R (.done a m) (.done b m')
  | stopped (why : Stop) {m m' : Machine} (h : m'.shown = m.shown) :
    Paired φ R (.stopped why m) (.stopped why m')

namespace Machine.Paired

variable {α β : Type} {R : α → β → Prop} {m m' : Machine} {a : α} {b : β}
  {scope scope' : Scope} {v v' : Value}

theorem ofExcept (hm : m.Paired φ m') {e : Except Stop α} {e' : Except Stop β}
    (h : Matching R e e') : (Outcome.ofExcept m e).Paired φ R (Outcome.ofExcept m' e') := by
  cases h with
  | ok h => exact .done hm h
  | error why => exact .stopped why hm.shown

theorem update (hm : m.Paired φ m') {e e' : Except Stop (Store Value)}
    (h : Matching (Store.Paired φ) e e') (hab : R a b) :
    (m.update a e).Paired φ R (m'.update b e') := by
  cases h with
  | ok h => exact .done ⟨h, hm.closures, hm.readings, hm.shown⟩ hab
  | error why => exact .stopped why hm.shown

theorem define (hm : m.Paired φ m') (hscope : φ[scope.frame]? = some scope'.frame)
    (name : Token) (hv : v.Paired φ v') :
    (m.define scope name v).Paired φ (fun _ _ => True) (m'.define scope' name v') :=
  hm.update (hm.store.define hscope name hv) trivial

theorem defineAll (hm : m.Paired φ m') (hscope : φ[scope.frame]? = some scope'.frame)
    (params : List Token) {vs vs' : List Value} (hvs : List.Forall₂ (Value.Paired φ) vs vs') :
    (Machine.defineAll scope params vs m).Paired φ (fun _ _ => True)
      (Machine.defineAll scope' params vs' m') := by
  induction params generalizing vs vs' m m' with
  | nil => exact .done hm trivial
  | cons p params ih =>
    cases hvs with
    | nil => exact .done hm trivial
    | @cons v v' vs vs' hv hvs =>
      have hfirst := hm.define hscope p hv
      unfold Machine.defineAll
      cases hdone : m.define scope p v with
      | outOfFuel m₁ =>
        rw [hdone] at hfirst
        cases hfirst
      | done _ m₁ =>
        rw [hdone] at hfirst
        generalize m'.define scope' p v' = o' at hfirst ⊢
        cases hfirst with
        | done hm₁ => exact ih hm₁ hvs
      | stopped why m₁ =>
        rw [hdone] at hfirst
        generalize m'.define scope' p v' = o' at hfirst ⊢
        cases hfirst with
        | stopped _ hshown => exact .stopped why hshown

theorem print (hm : m.Paired φ m') (hv : v.Paired φ v') : (m.print v).Paired φ (m'.print v') := by
  refine ⟨hm.store, hm.closures, hm.readings, ?_⟩
  have hshown := hm.shown
  unfold Machine.shown at hshown ⊢
  simp only [Machine.print, Array.toList_push, List.map_append, hshown, List.map_singleton,
    hv.print_eq]

end Machine.Paired

/-- The second run has taken at least as many frames of the host as the first one. -/
structure Stack.Below (k k' : Stack) : Prop where
  host : k'.host = k.host
  caller : k'.caller = k.caller
  taken : k.taken ≤ k'.taken

namespace Stack.Below

variable {k k' : Stack}

theorem take (h : k.Below k') (i : Nat) : (k.take i).Below (k'.take i) :=
  ⟨h.host, h.caller, Nat.add_le_add_right h.taken i⟩

theorem take_right (h : k.Below k') (i : Nat) : k.Below (k'.take i) :=
  ⟨h.host, h.caller, Nat.le_trans h.taken (Nat.le_add_right _ i)⟩

theorem enter (h : k.Below k') (i : Nat) (paren : Token) :
    (k.enter i paren).Below (k'.enter i paren) :=
  ⟨h.host, rfl, Nat.add_le_add_right h.taken i⟩

/-- Where the first run is out of frames, the second one is. -/
theorem overflow {paren : Token} (h : k.Below k') (hover : k.overflow? = some paren) :
    k'.overflow? = some paren := by
  unfold overflow? at hover ⊢
  split at hover
  next hlt => rw [h.host, h.caller, if_pos (Nat.lt_of_lt_of_le hlt h.taken), hover]
  next => cases hover

end Stack.Below

structure Interpreter.Paired (φ : List Nat) (flags : List Bool) (s s' : Interpreter) : Prop where
  machine : s.machine.Paired φ s'.machine
  scope : s.scope.Paired φ flags s'.scope
  globals : s.globals = Machine.globals
  globals' : s'.globals = Machine.globals

/-- The scopes that a use finds in both runs. -/
theorem Interpreter.Paired.owner {s s' : Interpreter} {scopes scopes' : Scopes}
    (h : s.Paired φ flags s') (hscopes : scopes.Spread flags scopes') (name : Token) :
    ∃ owner owner', φ[owner.frame]? = some owner'.frame ∧
      s.find name (scopes.address name) = s.machine.store.getHere owner name ∧
      s'.find name (scopes'.address name) = s'.machine.store.getHere owner' name ∧
      (∀ v, s.assign name v (scopes.address name) =
        s.machine.store.assignHere owner name v) ∧
      ∀ v, s'.assign name v (scopes'.address name) =
        s'.machine.store.assignHere owner' name v := by
  rcases hscopes.address name with ⟨ha, ha'⟩ | ⟨d, d', ha, ha', hd⟩
  · refine ⟨Machine.globals, Machine.globals, h.machine.store.root, ?_, ?_, fun v => ?_,
      fun v => ?_⟩
    · rw [ha, find, h.globals, Store.get_globals]
    · rw [ha', find, h.globals', Store.get_globals]
    · rw [ha, assign, h.globals, Store.assign_globals]
    · rw [ha', assign, h.globals', Store.assign_globals]
  · obtain ⟨owner, owner', hup, hup', hframe⟩ := h.scope.up hd
    have hancestor : s.scope.ancestor (d : Int) = .ok owner := by simp [Scope.ancestor, hup]
    have hancestor' : s'.scope.ancestor (d' : Int) = .ok owner' := by
      simp [Scope.ancestor, hup']
    refine ⟨owner, owner', hframe, ?_, ?_, fun v => ?_, fun v => ?_⟩
    · rw [ha, find, Store.getAt, hancestor]
    · rw [ha', find, Store.getAt, hancestor']
    · rw [ha, assign, Store.assignAt, hancestor]
    · rw [ha', assign, Store.assignAt, hancestor']

end Scriptlet

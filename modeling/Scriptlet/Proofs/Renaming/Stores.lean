import Scriptlet.Proofs.Evaluation.Frames
import Scriptlet.Proofs.Renaming.Spared

/-! The variables of a run and of the same run of the renamed program. -/
namespace Scriptlet

/-- The closure that the renamed program makes for this one, declared at the place. -/
def Renaming.closure (r : Renaming) (q : Place) (scopes : Scopes) (f : Closure) : Closure :=
  { f with
    name := r.declared q f.name
    params := f.params.map (r.declared (.body :: q))
    body := Stmt.renameAll r (.body :: q) ((scopes.define f.name).enter f.params) f.body }

/-- The scopes at run time belong to these places; a flag for each frame tells whether it is one of
the scope of the renaming. -/
inductive Renaming.Marks (r : Renaming) (flags : List Bool) : List Place → Scope → Prop where
  | top {f : Nat} (h : flags[f]? = some false) : Marks r flags [] (.root f)
  | inner {q : Place} {ps : List Place} {f : Nat} {outer : Scope}
    (h : flags[f]? = some (decide (q = r.scope))) (houter : Marks r flags ps outer) :
    Marks r flags (q :: ps) (.inner f outer)

variable {r : Renaming} {starts : Place → Task → Prop} {flags flags' : List Bool}
  {s s' t t' : Store Value} {here : Bool} {z : String}

namespace Renaming.Marks

variable {ps : List Place} {scope : Scope}

theorem mono (h : r.Marks flags ps scope) (hflags : flags <+: flags') :
    r.Marks flags' ps scope := by
  induction h with
  | top h => exact .top (get_later hflags h)
  | inner h _ ih => exact .inner (get_later hflags h) ih

theorem head (h : r.Marks flags ps scope) :
    flags[scope.frame]? = some (decide (ps.head? = some r.scope)) := by
  cases h with
  | top h => simpa [Scope.frame] using h
  | inner h _ => simpa [Scope.frame] using h

theorem up {d : Nat} {q : Place} (h : r.Marks flags ps scope) (hd : ps[d]? = some q) :
    ∃ owner, scope.up? d = some owner ∧ flags[owner.frame]? = some (decide (q = r.scope)) := by
  induction h generalizing d with
  | top => simp at hd
  | inner h _ ih =>
    cases d with
    | zero =>
      obtain rfl := Option.some.inj hd
      exact ⟨_, rfl, h⟩
    | succ d => exact ih hd

end Renaming.Marks

/-- The same value in both runs. A closure is that of the same declaration, renamed. -/
inductive Value.Renamed (r : Renaming) (starts : Place → Task → Prop) (flags : List Bool)
    (s : Store Value) : Value → Value → Prop where
  | plain {v : Value} (h : ∀ f, v ≠ .closure f) : Renamed r starts flags s v v
  | closure {q : Place} {scopes : Scopes} {d : Task} {f : Closure} {m : Machine}
    (hd : Located starts q scopes d) (hmakes : d.Makes f m) (hbefore : m.store.Before s)
    (hmarks : r.Marks flags q.scopes f.scope) :
    Renamed r starts flags s (.closure f) (.closure (r.closure q scopes f))

theorem Value.Renamed.mono {v v' : Value} (h : v.Renamed r starts flags s v')
    (hflags : flags <+: flags') (hs : s.Before t) : v.Renamed r starts flags' t v' := by
  cases h with
  | plain h => exact .plain h
  | closure hd hmakes hbefore hmarks =>
    exact .closure hd hmakes (hbefore.trans hs) (hmarks.mono hflags)

/-- The variables of one scope in both runs. -/
abbrev Frame.Renamed (r : Renaming) (starts : Place → Task → Prop) (flags : List Bool)
    (s : Store Value) (here : Bool) : Frame Value → Frame Value → Prop :=
  List.Forall₂ fun b b' =>
    (here = true → b.1 ≠ r.new) ∧ b'.1 = r.key here b.1 ∧ b.2.Renamed r starts flags s b'.2

namespace Frame.Renamed

variable {f f' : Frame Value}

theorem mono (h : Frame.Renamed r starts flags s here f f') (hflags : flags <+: flags')
    (hs : s.Before t) : Frame.Renamed r starts flags' t here f f' :=
  h.imp fun _ _ ⟨hnew, hkey, hv⟩ => ⟨hnew, hkey, hv.mono hflags hs⟩

theorem key_inj (x y : String) (hx : here = true → x ≠ r.new) (hy : here = true → y ≠ r.new)
    (h : r.key here x = r.key here y) : x = y := (Renaming.key_injective hx hy).1 h

/-- A variable is found in both runs or in neither. -/
theorem lookup (h : Frame.Renamed r starts flags s here f f') (hz : here = true → z ≠ r.new) :
    (f.lookup z = none ∧ f'.lookup (r.key here z) = none) ∨
      ∃ v v', f.lookup z = some v ∧ f'.lookup (r.key here z) = some v' ∧
        v.Renamed r starts flags s v' := Frame.Matches.lookup h key_inj hz

theorem binds (h : Frame.Renamed r starts flags s here f f') (hz : here = true → z ≠ r.new) :
    Frame.binds f' (r.key here z) = Frame.binds f z := Frame.Matches.binds h key_inj hz

theorem set {v v' : Value} (h : Frame.Renamed r starts flags s here f f')
    (hz : here = true → z ≠ r.new) (hv : v.Renamed r starts flags s v') :
    Frame.Renamed r starts flags s here (Frame.set z v f) (Frame.set (r.key here z) v' f') :=
  Frame.Matches.set h key_inj hz hv

end Frame.Renamed

/-- All variables in both runs. There are as many frames, and the first one is for the globals. -/
structure Store.Renamed (r : Renaming) (starts : Place → Task → Prop) (flags : List Bool)
    (s s' : Store Value) : Prop where
  size : flags.length = s.frames.size
  size_eq : s'.frames.size = s.frames.size
  root : flags[0]? = some false
  frames (f : Nat) (here : Bool) (hf : flags[f]? = some here) :
    Frame.Renamed r starts flags s here (s.frame f) (s'.frame f)

namespace Store.Renamed

variable {scope : Scope}

theorem lt (h : s.Renamed r starts flags s') {f : Nat} (hf : flags[f]? = some here) :
    f < s.frames.size := by
  rw [← h.size]
  exact (List.getElem?_eq_some_iff.1 hf).1

theorem grow (h : s.Renamed r starts flags s') (here : Bool) :
    s.grow.Renamed r starts (flags ++ [here]) s'.grow := by
  have hflags : flags <+: flags ++ [here] := List.prefix_append flags [here]
  refine ⟨by simp [Store.grow, h.size], by simp [Store.grow, h.size_eq],
    get_later hflags h.root, fun f here' hf => ?_⟩
  rw [Store.frame_grow, Store.frame_grow]
  rcases Nat.lt_or_ge f flags.length with hlt | hge
  · rw [List.getElem?_append_left hlt] at hf
    exact (h.frames f here' hf).mono hflags (Store.keeps_grow _)
  · rw [Store.frame_of_le (h.size ▸ hge), Store.frame_of_le (h.size_eq ▸ h.size ▸ hge)]
    exact .nil

theorem add (h : s.Renamed r starts flags s') (hscope : flags[scope.frame]? = some here)
    (hz : here = true → z ≠ r.new) {v v' : Value}
    (hv : v.Renamed r starts flags (s.add scope z v) v') :
    (s.add scope z v).Renamed r starts flags (s'.add scope (r.key here z) v') := by
  have hbefore : s.Before (s.add scope z v) := Store.keeps_add trivial
  have hlt : scope.frame < s.frames.size := h.lt hscope
  have hlt' : scope.frame < s'.frames.size := h.size_eq ▸ hlt
  refine ⟨by simp [Store.add, h.size], by simp [Store.add, h.size_eq], h.root, fun f here' hf => ?_⟩
  rw [Store.frame_add hlt, Store.frame_add hlt']
  by_cases hsame : f = scope.frame
  · subst hsame
    obtain rfl : here = here' := Option.some.inj (hscope.symm.trans hf)
    rw [if_pos rfl, if_pos rfl]
    exact .cons ⟨hz, rfl, hv⟩ ((h.frames _ _ hf).mono (List.prefix_refl _) hbefore)
  · rw [if_neg hsame, if_neg hsame]
    exact (h.frames _ _ hf).mono (List.prefix_refl _) hbefore

theorem set (h : s.Renamed r starts flags s') (hscope : flags[scope.frame]? = some here)
    (hz : here = true → z ≠ r.new) {v v' : Value} (hv : v.Renamed r starts flags s v') :
    (s.set scope z v).Renamed r starts flags (s'.set scope (r.key here z) v') := by
  have hbefore : s.Before (s.set scope z v) := Store.keeps_set _ scope z v
  have hlt : scope.frame < s.frames.size := h.lt hscope
  have hlt' : scope.frame < s'.frames.size := h.size_eq ▸ hlt
  refine ⟨by simp [Store.set, h.size], by simp [Store.set, h.size_eq], h.root, fun f here' hf => ?_⟩
  unfold Store.set at hbefore ⊢
  rw [Store.frame_modify hlt, Store.frame_modify hlt']
  by_cases hsame : f = scope.frame
  · subst hsame
    obtain rfl : here = here' := Option.some.inj (hscope.symm.trans hf)
    rw [if_pos rfl, if_pos rfl]
    have hframe := (h.frames _ _ hf).mono (List.prefix_refl _) hbefore
    exact hframe.set hz (hv.mono (List.prefix_refl _) hbefore)
  · rw [if_neg hsame, if_neg hsame]
    exact (h.frames _ _ hf).mono (List.prefix_refl _) hbefore

end Store.Renamed
end Scriptlet

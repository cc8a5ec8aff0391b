import Scriptlet.Proofs.Faults.Raised
import Scriptlet.Proofs.Store.Chains

/-! What the operations on variables do, whatever forest of scopes has been built: to search is to
jump to the nearest scope with the name, and a change is to one variable of one scope. -/
namespace Scriptlet

namespace Store

variable {α : Type} {s : Store α} {scope owner : Scope} {z : String} {name : Token} {v : α}

/-- What a search finds is as far outward as the nearest scope with the name. -/
theorem up_of_find (h : s.find? z scope = some owner) :
    ∃ d, scope.up? d = some owner ∧ s.binds owner z = true ∧
      ∀ e < d, ∀ j, scope.frames[e]? = some j → (s.frame j).binds z = false := by
  induction scope with
  | root n =>
    unfold find? at h
    split at h
    next hbinds =>
      obtain rfl := Option.some.inj h
      exact ⟨0, rfl, hbinds, fun e he => absurd he e.not_lt_zero⟩
    next => cases h
  | inner n outer ih =>
    unfold find? at h
    split at h
    next hbinds =>
      obtain rfl := Option.some.inj h
      exact ⟨0, rfl, hbinds, fun e he => absurd he e.not_lt_zero⟩
    next hunbound =>
      obtain ⟨d, hup, hbinds, hfirst⟩ := ih h
      refine ⟨d + 1, hup, hbinds, fun e he j hj => ?_⟩
      cases e with
      | zero =>
        obtain rfl := Option.some.inj hj
        simpa using hunbound
      | succ e => exact hfirst e (Nat.lt_of_succ_lt_succ he) j hj

theorem ancestor_of_up {d : Nat} (h : scope.up? d = some owner) :
    scope.ancestor d = .ok owner := by
  have hd : ¬ (d : Int) < 0 := Int.not_lt.2 (Int.natCast_nonneg d)
  simp [Scope.ancestor, hd, h]

theorem up_of_ancestor {d : Int} (h : scope.ancestor d = .ok owner) :
    0 ≤ d ∧ scope.up? d.toNat = some owner := by
  unfold Scope.ancestor at h
  split at h
  next => cases h
  next hd =>
    cases hup : scope.up? d.toNat with
    | none => simp [hup] at h
    | some o =>
      obtain rfl : o = owner := by simpa [hup] using h
      exact ⟨Int.not_lt.1 hd, rfl⟩

theorem ancestor_eq_error {d : Int} {e : DistanceError} :
    scope.ancestor d = .error e ↔
      (d < 0 ∧ e = .negative d) ∨ (scope.frames.length ≤ d ∧ e = .tooFar) := by
  have hlength : 0 < scope.frames.length := by cases scope <;> simp [Scope.frames]
  have hup := scope.frame_up d.toNat
  unfold Scope.ancestor
  split
  next hneg =>
    have hle : ¬ (scope.frames.length : Int) ≤ d := by omega
    simp [hneg, hle, eq_comm]
  next hneg =>
    cases hj : scope.up? d.toNat with
    | some owner =>
      rw [hj, Option.map_some, eq_comm, List.getElem?_eq_some_iff] at hup
      obtain ⟨hlt, -⟩ := hup
      have hle : ¬ (scope.frames.length : Int) ≤ d := by omega
      simp [hneg, hle]
    | none =>
      rw [hj, Option.map_none, eq_comm, List.getElem?_eq_none_iff] at hup
      have hle : (scope.frames.length : Int) ≤ d := by omega
      simp [hneg, hle, eq_comm]

theorem assignAt_eq_ok {d : Int} {s' : Store α} : s.assignAt scope d name v = .ok s' ↔
    ∃ owner, scope.ancestor d = .ok owner ∧ s.binds owner name.lexeme = true ∧
      s' = s.set owner name.lexeme v := by
  unfold assignAt
  cases scope.ancestor d with
  | ok owner => simp [assignHere_eq_ok]
  | error e => simp

theorem read_find (s : Store α) (scope : Scope) (z : String) :
    ((s.find? z scope).bind fun owner => s.read? owner z) =
      scope.frames.findSome? fun j => (s.frame j).lookup z := by
  induction scope with
  | root n =>
    unfold find? Scope.frames
    cases hread : (s.frame n).lookup z <;>
      simp [Frame.binds, hread, read?, Scope.frame]
  | inner n outer ih =>
    unfold find? Scope.frames
    rw [List.findSome?_cons]
    cases hread : (s.frame n).lookup z with
    | some v => simp [Frame.binds, hread, read?, Scope.frame]
    | none => simpa [Frame.binds, hread] using ih

/-- A search has the first value on the way outward. -/
theorem get_eq (s : Store α) (scope : Scope) (name : Token) : s.get scope name =
    match scope.frames.findSome? fun j => (s.frame j).lookup name.lexeme with
    | some v => .ok v
    | none => .error (.error ⟨name, .undefined⟩) := by
  rw [← read_find]
  unfold get getHere
  cases s.find? name.lexeme scope <;> rfl

/-- A search depends on the variables of the name, on the way outward. -/
theorem findSome_congr {s' : Store α} {js : List Nat}
    (h : ∀ j ∈ js, (s'.frame j).lookup z = (s.frame j).lookup z) :
    (js.findSome? fun j => (s'.frame j).lookup z) = js.findSome? fun j => (s.frame j).lookup z := by
  induction js with
  | nil => rfl
  | cons j js ih =>
    obtain ⟨hj, hjs⟩ := List.forall_mem_cons.1 h
    rw [List.findSome?_cons, List.findSome?_cons, hj, ih hjs]

theorem find_eq_none : s.find? z scope = none ↔
    ∀ j ∈ scope.frames, ¬ (s.frame j).binds z = true := by
  rw [← Option.map_eq_none_iff (f := Scope.frame), frame_find, List.find?_eq_none]

theorem get_of_find (h : s.find? name.lexeme scope = some owner) :
    ∃ v, s.read? owner name.lexeme = some v ∧ s.get scope name = .ok v := by
  obtain ⟨-, -, hbinds, -⟩ := up_of_find h
  obtain ⟨v, hv⟩ := Option.isSome_iff_exists.1 hbinds
  refine ⟨v, hv, ?_⟩
  unfold get getHere
  rw [h]
  simp [read?, hv]

theorem assign_of_find (h : s.find? name.lexeme scope = some owner) (v : α) :
    s.assign scope name v = .ok (s.set owner name.lexeme v) := by
  obtain ⟨-, -, hbinds, -⟩ := up_of_find h
  unfold assign
  rw [h]
  exact assignHere_eq_ok.2 ⟨hbinds, rfl⟩

theorem get_ok_iff :
    (∃ v, s.get scope name = .ok v) ↔ ∃ owner, s.find? name.lexeme scope = some owner := by
  cases h : s.find? name.lexeme scope with
  | none => simp [get, h]
  | some owner =>
    obtain ⟨v, -, hv⟩ := get_of_find h
    simp [hv]

theorem assign_ok_iff :
    (∃ s', s.assign scope name v = .ok s') ↔ ∃ owner, s.find? name.lexeme scope = some owner := by
  cases h : s.find? name.lexeme scope with
  | none => simp [assign, h]
  | some owner => simp [assign_of_find h]

/-- To search for a variable is to jump to it. -/
theorem get_eq_getAt {d : Nat} (hfind : s.find? name.lexeme scope = some owner)
    (hup : scope.up? d = some owner) : s.get scope name = s.getAt scope d name := by
  unfold get getAt
  rw [hfind, ancestor_of_up hup]

theorem assign_eq_assignAt {d : Nat} (hfind : s.find? name.lexeme scope = some owner)
    (hup : scope.up? d = some owner) : s.assign scope name v = s.assignAt scope d name v := by
  unfold assign assignAt
  rw [hfind, ancestor_of_up hup]

theorem lookup_add (h : scope.frame < s.frames.size) (i : Nat) (x : String) :
    ((s.add scope z v).frame i).lookup x =
      if i = scope.frame ∧ x = z then some v else (s.frame i).lookup x := by
  rw [frame_add h]
  by_cases hi : i = scope.frame
  · simp [hi, Frame.lookup_cons]
  · simp [hi]

theorem lookup_set (h : scope.frame < s.frames.size) (hbinds : s.binds scope z = true) (i : Nat)
    (x : String) : ((s.set scope z v).frame i).lookup x =
      if i = scope.frame ∧ x = z then some v else (s.frame i).lookup x := by
  have hframe : (s.frame scope.frame).binds z = true := hbinds
  unfold Store.set
  rw [frame_modify h]
  by_cases hi : i = scope.frame
  · simp [hi, Frame.lookup_set, hframe]
  · simp [hi]

end Store

namespace Forest

/-- The forest after the commands. -/
def after (f : Forest) (cs : List Command) : Forest := cs.foldl (fun f c => (f.step c).2) f

/-- The scope with the number has the name itself. -/
def Binds (f : Forest) (i : Nat) (z : String) : Prop := (f.store.frame i).binds z = true

/-- Of the scopes on the chain, that so many steps outward is the first one with the name. -/
structure Nearest (f : Forest) (js : List Nat) (z : String) (d j : Nat) : Prop where
  there : js[d]? = some j
  binds : f.Binds j z
  first (e : Nat) (he : e < d) (k : Nat) (hk : js[e]? = some k) : ¬ f.Binds k z

/-- Outward from the scope `i` there is the scope `j`, and none before it has the name. -/
def Sees (f : Forest) (i j : Nat) (z : String) : Prop :=
  ∃ inner outer, f.Chain i (inner ++ j :: outer) ∧ ∀ k ∈ inner, ¬ f.Binds k z

/-- One variable of one scope has got the value. Those from which nothing shadows the scope see the
value there, and nobody else sees any difference. -/
structure Changes (f f' : Forest) (j : Nat) (z : String) (v : Value) : Prop where
  scopes : f'.scopes = f.scopes
  lookup (i : Nat) (x : String) : (f'.store.frame i).lookup x =
    if i = j ∧ x = z then some v else (f.store.frame i).lookup x
  seen (i : Nat) (name : Token) (hz : name.lexeme = z) (h : f.Sees i j z) :
    (f'.step (.get i name)).1 = .ok (some v)
  unseen (i : Nat) (name : Token) (h : ¬ (name.lexeme = z ∧ f.Sees i j z)) :
    (f'.step (.get i name)).1 = (f.step (.get i name)).1

variable {f : Forest} {scope : Scope} {i j : Nat} {js : List Nat} {z : String} {v : Value}
  {name : Token}

theorem step_of_scope (hget : f.scopes[i]? = some scope) (act : Scope → Answer × Forest) :
    f.onScope i act = act scope := by
  unfold onScope
  rw [hget]

theorem reading_ok {r : Except Stop Value} :
    (∃ w, (f.reading r).1 = .ok w) ↔ ∃ v, r = .ok v := by
  cases r <;> simp [reading]

theorem update_ok {answer : Option Value} {r : Except Stop (Store Value)} :
    (∃ w, (f.update answer r).1 = .ok w) ↔ ∃ store, r = .ok store := by
  cases r <;> simp [update]

theorem reading_error {r : Except Stop Value} {why : Stop} :
    (f.reading r).1 = .error why ↔ r = .error why := by
  cases r <;> simp [reading]

theorem update_error {answer : Option Value} {r : Except Stop (Store Value)} {why : Stop} :
    (f.update answer r).1 = .error why ↔ r = .error why := by
  cases r <;> simp [update]

theorem reading_keeps {r : Except Stop Value} : (f.reading r).2 = f := by cases r <;> rfl

theorem failed_update {answer : Option Value} {r : Except Stop (Store Value)} {why : Stop}
    (h : (f.update answer r).1 = .error why) : (f.update answer r).2 = f := by
  cases r with
  | ok => cases h
  | error => rfl

/-- What the answer to a search is depends on the variables on the chain. -/
theorem answer_get (hget : f.scopes[i]? = some scope) (name : Token) :
    (f.step (.get i name)).1 =
      match scope.frames.findSome? fun j => (f.store.frame j).lookup name.lexeme with
      | some v => .ok (some v)
      | none => .error (.error ⟨name, .undefined⟩) := by
  rw [step, step_of_scope hget, Store.get_eq]
  cases scope.frames.findSome? _ <;> rfl

/-- The laws of variables in a forest of scopes. -/
structure Lawful (f : Forest) : Prop where
  /-- From each scope there is a chain outward, with an end and without repetition. -/
  chain (i : Nat) (hi : i < f.scopes.length) : ∃ js, f.Chain i js ∧ js.Nodup
  get_ok {i : Nat} {js : List Nat} (hi : f.Chain i js) (name : Token) :
    (∃ v, (f.step (.get i name)).1 = .ok v) ↔ ∃ j ∈ js, f.Binds j name.lexeme
  assign_ok {i : Nat} {js : List Nat} (hi : f.Chain i js) (name : Token) (v : Value) :
    (∃ w, (f.step (.assign i name v)).1 = .ok w) ↔ ∃ j ∈ js, f.Binds j name.lexeme
  /-- To search is to jump to the nearest scope with the name. -/
  nearest {i : Nat} {js : List Nat} (hi : f.Chain i js) (name : Token)
    (hbound : ∃ j ∈ js, f.Binds j name.lexeme) : ∃ d j, f.Nearest js name.lexeme d j ∧
      f.step (.get i name) = f.step (.getAt i d name) ∧
      (∃ v, (f.store.frame j).lookup name.lexeme = some v ∧
        (f.step (.get i name)).1 = .ok (some v)) ∧
      ∀ v, (f.step (.assign i name v)).2 = (f.step (.assignAt i d name v)).2 ∧
        (f.step (.assignAt i d name v)).1 = .ok (some v)
  /-- A variable is defined once, where it is defined. -/
  define_ok (i : Nat) (hi : i < f.scopes.length) (name : Token) (v : Value) :
    (∃ w, (f.step (.define i name v)).1 = .ok w) ↔ ¬ f.Binds i name.lexeme
  define_changes (i : Nat) (hi : i < f.scopes.length) (name : Token) (v : Value) {w : Option Value}
    (hok : (f.step (.define i name v)).1 = .ok w) :
    f.Changes (f.step (.define i name v)).2 i name.lexeme v
  assign_changes {i : Nat} {js : List Nat} (hi : f.Chain i js) (name : Token) (v : Value)
    {w : Option Value} (hok : (f.step (.assign i name v)).1 = .ok w) :
    ∃ d j, f.Nearest js name.lexeme d j ∧
      f.Changes (f.step (.assign i name v)).2 j name.lexeme v
  assignAt_changes {i : Nat} {js : List Nat} (hi : f.Chain i js) (d : Int) (name : Token)
    (v : Value) {w : Option Value} (hok : (f.step (.assignAt i d name v)).1 = .ok w) :
    ∃ j, 0 ≤ d ∧ js[d.toNat]? = some j ∧ f.Binds j name.lexeme ∧
      f.Changes (f.step (.assignAt i d name v)).2 j name.lexeme v
  getAt_fault {i : Nat} {js : List Nat} (hi : f.Chain i js) (d : Int) (name : Token)
    (e : Fault) : (f.step (.getAt i d name)).1 = .error (.fault e) ↔
      (d < 0 ∧ e = .distance (.negative d)) ∨ (js.length ≤ d ∧ e = .distance .tooFar)
  assignAt_fault {i : Nat} {js : List Nat} (hi : f.Chain i js) (d : Int) (name : Token)
    (v : Value) (e : Fault) : (f.step (.assignAt i d name v)).1 = .error (.fault e) ↔
      (d < 0 ∧ e = .distance (.negative d)) ∨ (js.length ≤ d ∧ e = .distance .tooFar)
  failed (c : Command) {why : Stop} (h : (f.step c).1 = .error why) : (f.step c).2 = f

namespace Ordered

theorem nodup (h : f.Ordered) (hget : f.scopes[i]? = some scope) : scope.frames.Nodup :=
  (h.chain (List.mem_of_getElem? hget)).2.1.imp Nat.ne_of_gt

/-- All that the change of one variable changes. -/
theorem changes (h : f.Ordered) {store : Store Value} (hvars : ∀ i x, (store.frame i).lookup x =
    if i = j ∧ x = z then some v else (f.store.frame i).lookup x) :
    f.Changes { f with store } j z v := by
  have hother {js : List Nat} {x : String} (hne : ∀ k ∈ js, ¬ (k = j ∧ x = z)) :
      js.findSome? (fun k => (store.frame k).lookup x) =
        js.findSome? fun k => (f.store.frame k).lookup x :=
    Store.findSome_congr fun k hk => by rw [hvars, if_neg (hne k hk)]
  refine ⟨rfl, hvars, fun i name hz hsees => ?_, fun i name hunseen => ?_⟩
  · obtain ⟨inner, outer, hchain, hinner⟩ := hsees
    obtain ⟨scope, hget, hframes⟩ := h.chain_iff.1 hchain
    have hdisjoint : j ∉ inner := fun hj => by
      have hnodup := hframes ▸ h.nodup hget
      exact (List.nodup_append.1 hnodup).2.2 j hj j (List.mem_cons_self ..) rfl
    have hshadow : inner.findSome? (fun k => (store.frame k).lookup z) = none := by
      rw [hother fun k hk hkj => hdisjoint (hkj.1 ▸ hk), List.findSome?_eq_none_iff]
      exact fun k hk => Option.not_isSome_iff_eq_none.1 (hinner k hk)
    have hframe : (store.frame j).lookup z = some v := by simp [hvars]
    rw [answer_get (f := { f with store }) hget, hframes, hz, List.findSome?_append, hshadow]
    simp [hframe]
  · cases hget : f.scopes[i]? with
    | none => simp [step, onScope, hget]
    | some scope =>
      have hsame : scope.frames.findSome? (fun k => (store.frame k).lookup name.lexeme) =
          scope.frames.findSome? fun k => (f.store.frame k).lookup name.lexeme := by
        by_cases hj : j ∈ scope.frames ∧ name.lexeme = z
        · obtain ⟨hmem, hz⟩ := hj
          obtain ⟨inner, outer, hframes, hdisjoint⟩ := List.eq_append_cons_of_mem hmem
          have hchain : f.Chain i (inner ++ j :: outer) := h.chain_iff.2 ⟨scope, hget, hframes⟩
          -- what shadows the scope is found before it, both times
          obtain ⟨k, hk, hbinds⟩ : ∃ k ∈ inner, f.Binds k z :=
            Classical.byContradiction fun hnone =>
              hunseen ⟨hz, inner, outer, hchain, fun k hk hbinds => hnone ⟨k, hk, hbinds⟩⟩
          obtain ⟨w, hw⟩ := Option.isSome_iff_exists.1 hbinds
          have hfound : (inner.findSome? fun k => (f.store.frame k).lookup name.lexeme).isSome := by
            rw [List.findSome?_isSome_iff]
            exact ⟨k, hk, by rw [hz, hw]; rfl⟩
          obtain ⟨u, hu⟩ := Option.isSome_iff_exists.1 hfound
          rw [hframes, List.findSome?_append, List.findSome?_append,
            hother fun k hk hkj => hdisjoint (hkj.1 ▸ hk), hu]
          rfl
        · exact hother fun k hk hkj => hj ⟨hkj.1 ▸ hk, hkj.2⟩
      rw [answer_get (f := { f with store }) hget, answer_get hget, hsame]

end Ordered

theorem nearest_of_find {owner : Scope} (h : f.store.find? z scope = some owner) :
    ∃ d, scope.up? d = some owner ∧ f.Nearest scope.frames z d owner.frame := by
  obtain ⟨d, hup, hbinds, hfirst⟩ := Store.up_of_find h
  have hthere : scope.frames[d]? = some owner.frame := by rw [← scope.frame_up, hup]; rfl
  refine ⟨d, hup, hthere, hbinds, fun e he k hk hkz => ?_⟩
  cases (hfirst e he k hk).symm.trans hkz

theorem bound_iff : (∃ j ∈ scope.frames, f.Binds j z) ↔
    ∃ owner, f.store.find? z scope = some owner := by
  rw [← Option.ne_none_iff_exists', ne_eq, Store.find_eq_none]
  simp [Binds]

theorem distance_iff {d : Int} {e : Fault} :
    (∃ why, scope.ancestor d = .error why ∧ e = .distance why) ↔
      (d < 0 ∧ e = .distance (.negative d)) ∨
        (scope.frames.length ≤ d ∧ e = .distance .tooFar) := by
  simp only [Store.ancestor_eq_error]
  constructor
  · rintro ⟨why, ⟨hd, rfl⟩ | ⟨hd, rfl⟩, rfl⟩
    · exact .inl ⟨hd, rfl⟩
    · exact .inr ⟨hd, rfl⟩
  · rintro (⟨hd, rfl⟩ | ⟨hd, rfl⟩)
    · exact ⟨_, .inl ⟨hd, rfl⟩, rfl⟩
    · exact ⟨_, .inr ⟨hd, rfl⟩, rfl⟩

theorem getAt_eq_distance {d : Int} {e : Fault} :
    f.store.getAt scope d name = .error (.fault e) ↔
      (d < 0 ∧ e = .distance (.negative d)) ∨
        (scope.frames.length ≤ d ∧ e = .distance .tooFar) := by
  rw [← distance_iff]
  refine ⟨Store.getAt_eq_fault, fun ⟨why, hwhy, he⟩ => ?_⟩
  simp [Store.getAt, hwhy, he]

theorem assignAt_eq_distance {d : Int} {e : Fault} :
    f.store.assignAt scope d name v = .error (.fault e) ↔
      (d < 0 ∧ e = .distance (.negative d)) ∨
        (scope.frames.length ≤ d ∧ e = .distance .tooFar) := by
  rw [← distance_iff]
  refine ⟨Store.assignAt_eq_fault, fun ⟨why, hwhy, he⟩ => ?_⟩
  simp [Store.assignAt, hwhy, he]

/-- What fails changes nothing. -/
theorem step_failed {c : Command} {why : Stop} (h : (f.step c).1 = .error why) :
    (f.step c).2 = f := by
  have hact {i : Nat} {act : Scope → Answer × Forest}
      (hact : ∀ scope, (act scope).1 = .error why → (act scope).2 = f)
      (h : (f.onScope i act).1 = .error why) : (f.onScope i act).2 = f := by
    unfold onScope at h ⊢
    split at h
    · exact hact _ h
    · cases h
  cases c with
  | new parent =>
    cases parent with
    | none => cases h
    | some i => exact hact nofun h
  | define | assign | assignAt => exact hact (fun _ => failed_update) h
  | get | getAt => exact hact (fun _ _ => reading_keeps) h

namespace Ordered

/-- In the store that a forest has, what is set in a scope of the forest is set in its frame. -/
theorem changes_set (h : f.Ordered) {owner : Scope} (hj : owner.frame < f.store.frames.size)
    (hbinds : f.store.binds owner z = true) :
    f.Changes { f with store := f.store.set owner z v } owner.frame z v :=
  h.changes fun i x => Store.lookup_set hj hbinds i x

theorem lt_of_mem (h : f.Ordered) (hget : f.scopes[i]? = some scope) {k : Nat}
    (hk : k ∈ scope.frames) : k < f.store.frames.size := by
  obtain ⟨-, -, hle⟩ := h.chain (List.mem_of_getElem? hget)
  exact Nat.lt_of_le_of_lt (hle k hk) (h.frame_lt (List.mem_of_getElem? hget))

theorem lawful (h : f.Ordered) : f.Lawful where
  chain i hi := by
    have hget : f.scopes[i]? = some f.scopes[i] := List.getElem?_eq_getElem hi
    exact ⟨_, h.chain_iff.2 ⟨_, hget, rfl⟩, h.nodup hget⟩
  get_ok hi name := by
    obtain ⟨scope, hget, rfl⟩ := h.chain_iff.1 hi
    rw [step, step_of_scope hget, reading_ok, Store.get_ok_iff, bound_iff]
  assign_ok hi name v := by
    obtain ⟨scope, hget, rfl⟩ := h.chain_iff.1 hi
    rw [step, step_of_scope hget, update_ok, Store.assign_ok_iff, bound_iff]
  nearest hi name hbound := by
    obtain ⟨scope, hget, rfl⟩ := h.chain_iff.1 hi
    obtain ⟨owner, hfind⟩ := bound_iff.1 hbound
    obtain ⟨d, hup, hnearest⟩ := nearest_of_find hfind
    obtain ⟨v, hread, hv⟩ := Store.get_of_find hfind
    simp only [step, step_of_scope hget]
    refine ⟨d, owner.frame, hnearest, by rw [Store.get_eq_getAt hfind hup], ⟨v, hread, ?_⟩,
      fun w => ?_⟩
    · rw [hv]
      rfl
    · rw [← Store.assign_eq_assignAt hfind hup, Store.assign_of_find hfind]
      exact ⟨rfl, rfl⟩
  define_ok i hi name v := by
    have hget : f.scopes[i]? = some f.scopes[i] := List.getElem?_eq_getElem hi
    rw [step, step_of_scope hget, update_ok]
    simp [Store.define_eq_ok, Store.binds, Binds, h.numbered i _ hget]
  define_changes i hi name v w hok := by
    have hget : f.scopes[i]? = some f.scopes[i] := List.getElem?_eq_getElem hi
    rw [step, step_of_scope hget] at hok ⊢
    obtain ⟨store, hstore⟩ := update_ok.1 ⟨w, hok⟩
    obtain ⟨-, rfl⟩ := Store.define_eq_ok.1 hstore
    rw [hstore]
    have hframe : f.scopes[i].frame = i := h.numbered i _ hget
    refine h.changes fun k x => ?_
    have hadd := Store.lookup_add (s := f.store) (z := name.lexeme) (v := v)
      (h.frame_lt (List.getElem_mem hi)) k x
    rwa [hframe] at hadd
  assign_changes hi name v w hok := by
    obtain ⟨scope, hget, rfl⟩ := h.chain_iff.1 hi
    rw [step, step_of_scope hget] at hok ⊢
    obtain ⟨owner, hfind⟩ := Store.assign_ok_iff.1 (update_ok.1 ⟨w, hok⟩)
    obtain ⟨d, -, hnearest⟩ := nearest_of_find hfind
    rw [Store.assign_of_find hfind]
    have hj := h.lt_of_mem hget (List.mem_of_getElem? hnearest.there)
    exact ⟨d, owner.frame, hnearest, h.changes_set hj hnearest.binds⟩
  assignAt_changes hi d name v w hok := by
    obtain ⟨scope, hget, rfl⟩ := h.chain_iff.1 hi
    rw [step, step_of_scope hget] at hok ⊢
    obtain ⟨store, hstore⟩ := update_ok.1 ⟨w, hok⟩
    obtain ⟨owner, howner, hbinds, rfl⟩ := Store.assignAt_eq_ok.1 hstore
    obtain ⟨hd, hup⟩ := Store.up_of_ancestor howner
    have hj : scope.frames[d.toNat]? = some owner.frame := by rw [← scope.frame_up, hup]; rfl
    rw [hstore]
    exact ⟨owner.frame, hd, hj, hbinds,
      h.changes_set (h.lt_of_mem hget (List.mem_of_getElem? hj)) hbinds⟩
  getAt_fault hi d name e := by
    obtain ⟨scope, hget, rfl⟩ := h.chain_iff.1 hi
    rw [step, step_of_scope hget, reading_error, getAt_eq_distance]
  assignAt_fault hi d name v e := by
    obtain ⟨scope, hget, rfl⟩ := h.chain_iff.1 hi
    rw [step, step_of_scope hget, update_error, assignAt_eq_distance]
  failed c why hc := step_failed hc

/-- A change of variables is none of scopes. -/
theorem update (h : f.Ordered) (answer : Option Value) {r : Except Stop (Store Value)}
    (hr : ∀ store, r = .ok store → store.frames.size = f.store.frames.size) :
    (f.update answer r).2.Ordered := by
  cases r with
  | error => exact h
  | ok store => exact ⟨h.size.trans (hr store rfl).symm, h.numbered, h.outer⟩

theorem step (h : f.Ordered) (c : Command) : (f.step c).2.Ordered := by
  have hact {i : Nat} {act : Scope → Answer × Forest}
      (hact : ∀ scope, f.scopes[i]? = some scope → (act scope).2.Ordered) :
      (f.onScope i act).2.Ordered := by
    unfold onScope
    split
    next scope hget => exact hact scope hget
    next => exact h
  cases c with
  | new parent =>
    cases parent with
    | none => exact h.grow nofun
    | some i =>
      refine hact fun outer hget => h.grow fun o ho => ?_
      obtain rfl := Option.some.inj ho
      exact List.mem_of_getElem? hget
  | define i name v =>
    refine hact fun scope _ => h.update none fun store hstore => ?_
    obtain ⟨-, rfl⟩ := Store.define_eq_ok.1 hstore
    simp [Store.add]
  | assign i name v =>
    refine hact fun scope _ => h.update none fun store hstore => ?_
    obtain ⟨owner, hfind⟩ := Store.assign_ok_iff.1 ⟨store, hstore⟩
    obtain rfl := Except.ok.inj ((Store.assign_of_find hfind v).symm.trans hstore)
    simp [Store.set]
  | assignAt i d name v =>
    refine hact fun scope _ => h.update (some v) fun store hstore => ?_
    obtain ⟨owner, -, -, rfl⟩ := Store.assignAt_eq_ok.1 hstore
    simp [Store.set]
  | get | getAt => exact hact fun scope _ => reading_keeps.symm ▸ h

theorem after (h : f.Ordered) (cs : List Command) : (f.after cs).Ordered := by
  induction cs generalizing f with
  | nil => exact h
  | cons c cs ih => exact ih (h.step c)

end Ordered

/-- In whatever order scopes are made and variables are defined, read and assigned, the laws of
variables hold of them. -/
theorem operations_lawful (cs : List Command) : (empty.after cs).Lawful :=
  (ordered_empty.after cs).lawful

/-- Two scopes inside the same one, which has the variable: the one sees what the other assigns,
whether it searches or jumps, and one step further there is nothing. -/
theorem operations_lawful_siblings :
    let a : Token := ⟨.identifier, "a", ⟨1, 1⟩⟩
    let f := empty.after
      [.new none, .define 0 a (.string "old"), .new (some 0), .new (some 0),
        .assign 1 a (.string "new")]
    f.Lawful ∧ f.Chain 1 [1, 0] ∧ f.Chain 2 [2, 0] ∧ f.Nearest [2, 0] "a" 1 0 ∧
      (f.step (.get 2 a)).1 = .ok (some (.string "new")) ∧
      (f.step (.getAt 2 1 a)).1 = .ok (some (.string "new")) ∧
      (f.step (.getAt 2 2 a)).1 = .error (.fault (.distance .tooFar)) := by
  intro a f
  have hlaws : f.Lawful := operations_lawful _
  have hfirst : f.enclosing? 1 = some 0 := by decide +kernel
  have hsecond : f.enclosing? 2 = some 0 := by decide +kernel
  have hlast : f.Chain 0 [0] := .last (by decide +kernel) (by decide +kernel)
  have hchain : f.Chain 2 [2, 0] := .next hsecond hlast
  have hbinds : f.Binds 0 "a" := by
    unfold Binds
    decide +kernel
  have hfree : ¬ f.Binds 2 "a" := by
    unfold Binds
    decide +kernel
  have hnearest : f.Nearest [2, 0] "a" 1 0 := by
    refine ⟨rfl, hbinds, fun e he k hk => ?_⟩
    obtain rfl : e = 0 := by omega
    exact Option.some.inj hk ▸ hfree
  have hget : (f.step (.get 2 a)).1 = .ok (some (.string "new")) := by rfl
  have hgetAt : (f.step (.getAt 2 1 a)).1 = .ok (some (.string "new")) := by rfl
  exact ⟨hlaws, .next hfirst hlast, hchain, hnearest, hget, hgetAt,
    (hlaws.getAt_fault hchain 2 a _).2 (.inr ⟨by decide, rfl⟩)⟩

end Forest
end Scriptlet

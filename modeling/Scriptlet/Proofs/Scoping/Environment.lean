import Scriptlet.Proofs.Scoping.Scoped
import Scriptlet.Proofs.Scoping.Visits

/-! The scopes at run time against the scopes of the resolver. -/
namespace Scriptlet

variable {starts : Place → Task → Prop} {s s' : Store Value} {scopes : Scopes} {scope : Scope}

/-- The scopes at run time were made at these places, one after another. -/
inductive Trail (starts : Place → Task → Prop) : List Place → Scope → Prop where
  | top {scope : Scope} : Trail starts [] scope
  | inner {p : Place} {ps : List Place} {f : Nat} {outer : Scope}
    (hp : Created starts p (.inner f outer)) (h : Trail starts ps outer) :
    Trail starts (p :: ps) (.inner f outer)

/-- Every declared name is bound, scope by scope. -/
def Store.Covers (s : Store Value) : Scopes → Scope → Prop
  | [], _ => True
  | _ :: _, .root _ => False
  | names :: scopes, .inner f outer =>
    f < s.frames.size ∧ (∀ z, names.binds z = true → (s.frame f).binds z = true) ∧
      s.Covers scopes outer

/-- In the innermost scope just those names are bound whose declaration is complete. -/
def Store.Matches (s : Store Value) : Scopes → Scope → Prop
  | [], _ => True
  | _ :: _, .root _ => False
  | names :: scopes, .inner f outer =>
    f < s.frames.size ∧ (∀ z, (s.frame f).binds z = true ↔ names.lookup z = some true) ∧
      s.Covers scopes outer

/-- The innermost scope has no incomplete declaration but that of this variable. -/
def Scopes.Pends (scopes : Scopes) (x : Option Token) : Prop :=
  match scopes with
  | [] => True
  | names :: _ => ∀ z, names.lookup z = some false ↔ ∃ name ∈ x, name.lexeme = z

theorem Names.lookup_cons (z name : String) (b : Bool) (names : Names) :
    List.lookup z ((name, b) :: names) = if z = name then some b else names.lookup z :=
  Frame.lookup_cons name z b names

theorem Names.binds_iff {names : Names} {z : String} :
    names.binds z = true ↔ names.lookup z = some true ∨ names.lookup z = some false := by
  unfold Names.binds
  cases names.lookup z with
  | none => simp
  | some b => cases b <;> simp

theorem Store.Covers.mono (h : s.Covers scopes scope) (hs : s.Before s') :
    s'.Covers scopes scope := by
  induction scopes generalizing scope with
  | nil => trivial
  | cons names scopes ih =>
    cases scope with
    | root f => exact h
    | inner f outer =>
      obtain ⟨hf, hnames, houter⟩ := h
      exact ⟨Nat.lt_of_lt_of_le hf hs.size, fun z hz => hs.gain f z (hnames z hz), ih houter⟩

theorem Store.Matches.keeps (h : s.Matches scopes scope) (hs : s.Keeps (fun _ => False) s') :
    s'.Matches scopes scope := by
  cases scopes with
  | nil => trivial
  | cons names scopes =>
    cases scope with
    | root f => exact h
    | inner f outer =>
      obtain ⟨hf, hnames, houter⟩ := h
      refine ⟨Nat.lt_of_lt_of_le hf hs.size, fun z => ?_, houter.mono (hs.mono fun _ => False.elim)⟩
      rw [hs.binds_eq hf id]
      exact hnames z

theorem Store.Matches.covers (h : s.Matches scopes scope) (hp : scopes.Pends none) :
    s.Covers scopes scope := by
  cases scopes with
  | nil => trivial
  | cons names scopes =>
    cases scope with
    | root f => exact h
    | inner f outer =>
      obtain ⟨hf, hnames, houter⟩ := h
      refine ⟨hf, fun z hz => ?_, houter⟩
      rcases Names.binds_iff.1 hz with htrue | hfalse
      · exact (hnames z).2 htrue
      · obtain ⟨name, hname, -⟩ := (hp z).1 hfalse
        cases hname

/-- Another variable, here and there. -/
theorem Store.Matches.define (h : s.Matches scopes scope) (name : Token) (value : Value) :
    (s.add scope name.lexeme value).Matches (scopes.define name) scope := by
  cases scopes with
  | nil => trivial
  | cons names scopes =>
    cases scope with
    | root f => exact h
    | inner f outer =>
      obtain ⟨hf, hnames, houter⟩ := h
      have hbefore : s.Before (s.add (.inner f outer) name.lexeme value) := Store.keeps_add trivial
      refine ⟨Nat.lt_of_lt_of_le hf hbefore.size, fun z => ?_, houter.mono hbefore⟩
      have hscope : (Scope.inner f outer).frame < s.frames.size := hf
      rw [Store.frame_add hscope, Names.lookup_cons]
      by_cases hz : z = name.lexeme <;> simp [Scope.frame, hz, hnames]

theorem Scopes.Pends.define (h : scopes.Pends none) (name : Token) :
    (scopes.define name).Pends none := by
  cases scopes with
  | nil => trivial
  | cons names scopes =>
    intro z
    rw [Names.lookup_cons]
    by_cases hz : z = name.lexeme
    · simp [hz]
    · rw [if_neg hz]
      exact h z

/-- The parameters of a call, one after another. -/
theorem Store.Matches.defineAll {ps : List Token} {vs : List Value} {m m' : Machine}
    (h : m.store.Matches scopes scope) (hlen : vs.length = ps.length)
    (hdone : Machine.defineAll scope ps vs m = .done () m') :
    m'.store.Matches (ps.foldl Scopes.define scopes) scope := by
  induction ps generalizing scopes vs m with
  | nil =>
    obtain ⟨-, rfl⟩ := Outcome.done.inj hdone
    exact h
  | cons p ps ih =>
    cases vs with
    | nil => simp at hlen
    | cons v vs =>
      unfold Machine.defineAll Machine.define at hdone
      cases hs : m.store.define scope p v with
      | error why => simp [hs, Machine.update] at hdone
      | ok s =>
        rw [hs] at hdone
        obtain ⟨-, rfl⟩ := Store.define_eq_ok.1 hs
        have hnext := h.define p v
        exact ih (m := { m with store := _ }) hnext (by simpa using hlen) hdone

theorem Scopes.Pends.defineAll (h : scopes.Pends none) (ps : List Token) :
    (ps.foldl Scopes.define scopes).Pends none := by
  induction ps generalizing scopes with
  | nil => exact h
  | cons p ps ih => exact ih (h.define p)

theorem length_defineAll (ps : List Token) :
    (ps.foldl Scopes.define scopes).length = scopes.length := by
  have hdefine (scopes : Scopes) (p : Token) : (scopes.define p).length = scopes.length := by
    cases scopes <;> rfl
  induction ps generalizing scopes with
  | nil => rfl
  | cons p ps ih => rw [List.foldl_cons, ih, hdefine]

/-- At the place, these are the scopes of the resolver, and this is the scope at run time. -/
structure Env (starts : Place → Task → Prop) (p : Place) (scopes : Scopes) (scope : Scope)
    (s : Store Value) : Prop where
  trail : Trail starts p.scopes scope
  length : p.scopes.length = scopes.length
  names : s.Matches scopes scope
  pending : scopes.Pends p.initialized?

namespace Env

variable {p : Place}

theorem child (h : Env starts p scopes scope s) (i : Nat) :
    Env starts (.child i :: p) scopes scope s :=
  ⟨h.trail, h.length, h.names, h.pending⟩

theorem keeps (h : Env starts p scopes scope s) (hs : s.Keeps (fun _ => False) s') :
    Env starts p scopes scope s' :=
  ⟨h.trail, h.length, h.names.keeps hs, h.pending⟩

theorem define (h : Env starts p scopes scope s) (hp : p.initialized? = none) (name : Token)
    (value : Value) : Env starts p (scopes.define name) scope (s.add scope name.lexeme value) where
  trail := h.trail
  length := by rw [h.length]; cases scopes <;> rfl
  names := h.names.define name value
  pending := hp ▸ Scopes.Pends.define (hp ▸ h.pending) name

/-- In an initializer, the variable itself is declared but has no value. -/
theorem initializer (h : Env starts p scopes scope s) (hp : p.initialized? = none) {name : Token}
    (hclash : scopes.clashes name = false) :
    Env starts (.initializer name :: p) (scopes.declare name) scope s where
  trail := h.trail
  length := by
    change p.scopes.length = _
    rw [h.length]
    cases scopes <;> rfl
  names := by
    have hnames := h.names
    cases scopes with
    | nil => trivial
    | cons names scopes =>
      cases scope with
      | root f => exact hnames
      | inner f outer =>
        obtain ⟨hf, hbinds, houter⟩ := hnames
        refine ⟨hf, fun z => ?_, houter⟩
        rw [Names.lookup_cons, hbinds]
        by_cases hz : z = name.lexeme
        · have : names.lookup name.lexeme ≠ some true := fun hname => by
            have hbound : names.binds name.lexeme = true := Names.binds_iff.2 (.inl hname)
            rw [Scopes.clashes, hbound] at hclash
            cases hclash
          simp [hz, this]
        · rw [if_neg hz]
  pending := by
    have hpending := h.pending
    rw [hp] at hpending
    cases scopes with
    | nil => trivial
    | cons names scopes =>
      intro z
      rw [Names.lookup_cons]
      by_cases hz : z = name.lexeme
      · simp [hz, Place.initialized?]
      · have hold := hpending z
        simp only [Option.not_mem_none, false_and, exists_false, iff_false] at hold
        rw [if_neg hz]
        simp [Place.initialized?, hold, Ne.symm hz]

/-- A scope that is entered now has no names yet. -/
theorem enter {part : Part} {m : Machine} (hcovers : m.store.Covers scopes scope)
    (htrail : Trail starts p.scopes scope) (hlength : p.scopes.length = scopes.length)
    (hpart : Place.scopes (part :: p) = (part :: p) :: p.scopes)
    (hnone : Place.initialized? (part :: p) = none)
    (hcreated : Created starts (part :: p) (m.enter scope).1) :
    Env starts (part :: p) ([] :: scopes) (m.enter scope).1 (m.enter scope).2.store where
  trail := hpart ▸ .inner hcreated htrail
  length := by rw [hpart, List.length_cons, List.length_cons, hlength]
  names := by
    refine ⟨by simp [Machine.enter, Store.grow], fun z => ?_, hcovers.mono (Store.keeps_grow _)⟩
    change (m.enter scope).2.store.binds (m.enter scope).1 z = true ↔ _
    simp
  pending := by
    intro z
    simp [hnone]

theorem covers (h : Env starts p scopes scope s) (hp : p.initialized? = none) :
    s.Covers scopes scope := h.names.covers (hp ▸ h.pending)

end Env

theorem Trail.up {ps : List Place} {d : Nat} {p : Place} (h : Trail starts ps scope)
    (hd : ps[d]? = some p) : ∃ owner, scope.up? d = some owner ∧ Created starts p owner := by
  induction h generalizing d with
  | top => simp at hd
  | inner hp _ ih =>
    cases d with
    | zero =>
      obtain rfl := Option.some.inj hd
      exact ⟨_, rfl, hp⟩
    | succ d => exact ih hd

theorem Store.Covers.up {d : Nat} {names : Names} {owner : Scope} (h : s.Covers scopes scope)
    (hd : scopes[d]? = some names) (howner : scope.up? d = some owner) {z : String}
    (hz : names.binds z = true) : s.binds owner z = true := by
  induction scopes generalizing scope d with
  | nil => simp at hd
  | cons first scopes ih =>
    cases scope with
    | root f => exact h.elim
    | inner f outer =>
      cases d with
      | zero =>
        obtain rfl := Option.some.inj hd
        obtain rfl := Option.some.inj howner
        exact h.2.1 z hz
      | succ d => exact ih h.2.2 hd howner

/-- Of the names that the resolver has found, only that of the variable whose initializer is being
evaluated is not bound. -/
theorem Env.binds_up {p : Place} {k : Nat} {names : Names} {owner : Scope} {z : String}
    (h : Env starts p scopes scope s) (hk : scopes[k]? = some names) (hz : names.binds z = true)
    (hup : scope.up? k = some owner) :
    s.binds owner z = false ↔ k = 0 ∧ ∃ x ∈ p.initialized?, x.lexeme = z := by
  have hnames := h.names
  have hpending := h.pending
  cases scopes with
  | nil => simp at hk
  | cons first outer =>
    cases scope with
    | root f => exact hnames.elim
    | inner f outside =>
      obtain ⟨hf, hmatch, houter⟩ := hnames
      cases k with
      | zero =>
        obtain rfl := Option.some.inj hup
        obtain rfl := Option.some.inj hk
        rw [← Bool.not_eq_true]
        change ¬ (s.frame f).binds z = true ↔ _
        rw [hmatch, ← hpending]
        rcases Names.binds_iff.1 hz with hname | hname <;> simp [hname]
      | succ k =>
        have hbound : s.binds owner z = true := houter.up hk hup hz
        simp [hbound]

/-- Where an address leads: to a scope made at the place where the resolver found the name. The
name is bound there, unless the use is in the initializer of the variable itself. -/
theorem Env.address {p : Place} {name : Token} {d : Int} (h : Env starts p scopes scope s)
    (haddress : .up d = scopes.address name) :
    ∃ owner q, scope.ancestor d = .ok owner ∧ p.scopes[d.toNat]? = some q ∧
      Created starts q owner ∧
      (s.binds owner name.lexeme = false ↔
        d = 0 ∧ ∃ x ∈ p.initialized?, x.lexeme = name.lexeme) := by
  unfold Scopes.address at haddress
  split at haddress
  next k hk =>
    obtain rfl := Address.up.inj haddress
    obtain ⟨hlt, hbinds, -⟩ := List.findIdx?_eq_some_iff_getElem.1 hk
    have hlt' : k < p.scopes.length := h.length ▸ hlt
    have hplace : p.scopes[k]? = some p.scopes[k] := List.getElem?_eq_getElem hlt'
    obtain ⟨owner, hup, hcreated⟩ := h.trail.up hplace
    have hancestor : scope.ancestor k = .ok owner := by simp [Scope.ancestor, hup]
    refine ⟨owner, _, hancestor, hplace, hcreated, ?_⟩
    rw [h.binds_up (List.getElem?_eq_getElem hlt) hbinds hup, Int.natCast_eq_zero]
  next => cases haddress

end Scriptlet

import Scriptlet.Proofs.Evaluation.Keeps

/-! An interpreter that keeps its current scope in a variable. To run a block or the body of a
function it sets the variable, and it sets it back however that ends. -/
namespace Scriptlet

/-- The interpreter has all scopes that were ever made, in this order. -/
structure Interpreter where
  machine : Machine
  scopes : List Scope
  globals : Scope
  scope : Scope

/-- What is left of an interpreter by all that it runs: it is back in its scope, all scopes are
still there with all names they had, and what was printed was. -/
structure Interpreter.Later (s s' : Interpreter) : Prop where
  scope : s'.scope = s.scope
  globals : s'.globals = s.globals
  scopes : s.scopes <+: s'.scopes
  store : s.machine.store.Keeps (fun _ => True) s'.machine.store
  printed : s.machine.printed.toList <+: s'.machine.printed.toList

namespace Interpreter.Later

variable {s s' s'' : Interpreter}

theorem refl (s : Interpreter) : s.Later s :=
  ⟨rfl, rfl, List.prefix_refl _, Store.Keeps.refl _ _, List.prefix_refl _⟩

theorem trans (h : s.Later s') (h' : s'.Later s'') : s.Later s'' where
  scope := h'.scope.trans h.scope
  globals := h'.globals.trans h.globals
  scopes := h.scopes.trans h'.scopes
  store := h.store.trans h'.store
  printed := h.printed.trans h'.printed

end Interpreter.Later

/-- What comes of a step. When the bound was too low, the step has been cut short, and the
interpreter is where it had come to. -/
inductive Course (α : Type) where
  | done (value : α) (s : Interpreter)
  | stopped (why : Stop) (s : Interpreter)
  | cut (s : Interpreter)

namespace Course

variable {α : Type}

def state : Course α → Interpreter
  | done _ s | stopped _ s | cut s => s

/-- Goes back to the scope, whatever came of the step. -/
def back (scope : Scope) : Course α → Course α
  | done a s => done a { s with scope }
  | stopped why s => stopped why { s with scope }
  | cut s => cut { s with scope }

theorem state_back (scope : Scope) (r : Course α) :
    (r.back scope).state = { r.state with scope } := by
  cases r <;> rfl

/-- What is seen of it without the scopes. -/
def outcome : Course α → Outcome α
  | done a s => .done a s.machine
  | stopped why s => .stopped why s.machine
  | cut s => .outOfFuel s.machine

end Course

/-- A step that prints nothing. -/
abbrev Outcome.Quiet {α : Type} (o : Outcome α) (m : Machine) : Prop :=
  o.Leaves fun m' => m.store.Keeps (fun _ => True) m'.store ∧ m'.printed = m.printed

namespace Machine

variable {α : Type} {m : Machine}

theorem quiet_ofExcept (m : Machine) (e : Except Stop α) : (Outcome.ofExcept m e).Quiet m := by
  cases e <;> exact ⟨Store.Keeps.refl _ _, rfl⟩

theorem quiet_update {a : α} {e : Except Stop (Store Value)}
    (h : (m.update a e).Keeps (fun _ => True) m.store) : (m.update a e).Quiet m := by
  cases e <;> exact ⟨h, rfl⟩

theorem quiet_define (scope : Scope) (name : Token) (v : Value) (m : Machine) :
    (m.define scope name v).Quiet m := quiet_update (keeps_define trivial)

theorem quiet_defineAll (scope : Scope) (ps : List Token) (vs : List Value) (m : Machine) :
    (defineAll scope ps vs m).Quiet m := by
  induction ps generalizing vs m with
  | nil => exact ⟨Store.Keeps.refl _ _, rfl⟩
  | cons p ps ih =>
    cases vs with
    | nil => exact ⟨Store.Keeps.refl _ _, rfl⟩
    | cons v vs =>
      have hdefine := quiet_define scope p v m
      unfold defineAll
      cases hm : m.define scope p v with
      | stopped why m' | outOfFuel m' =>
        rw [hm] at hdefine
        exact hdefine
      | done a m' =>
        rw [hm] at hdefine
        have hrest := ih vs m'
        rw [Outcome.bind_done]
        cases hm' : defineAll scope ps vs m' with
        | stopped why m'' | done a m'' | outOfFuel m'' =>
          rw [hm'] at hrest
          exact ⟨hdefine.1.trans hrest.1, hrest.2.trans hdefine.2⟩

end Machine

/-- A step of the interpreter. -/
structure Step (α : Type) where
  run : Interpreter → Course α
  later (s : Interpreter) : s.Later (run s).state

namespace Step

variable {α β : Type}

theorem ext {t t' : Step α} (h : ∀ s, t.run s = t'.run s) : t = t' := by
  cases t
  cases t'
  obtain rfl := funext h
  rfl

def pure (a : α) : Step α := ⟨fun s => .done a s, .refl⟩

def stop (why : Stop) : Step α := ⟨fun s => .stopped why s, .refl⟩

def cut : Step α := ⟨fun s => .cut s, .refl⟩

def bind (t : Step α) (f : α → Step β) : Step β where
  run s :=
    match t.run s with
    | .done a s' => (f a).run s'
    | .stopped why s' => .stopped why s'
    | .cut s' => .cut s'
  later s := by
    have ht := t.later s
    cases hrun : t.run s with
    | done a s' =>
      rw [hrun] at ht
      exact ht.trans ((f a).later s')
    | stopped why s' | cut s' =>
      rw [hrun] at ht
      exact ht

theorem run_bind (t : Step α) (f : α → Step β) (s : Interpreter) :
    (t.bind f).run s = match t.run s with
      | .done a s' => (f a).run s'
      | .stopped why s' => .stopped why s'
      | .cut s' => .cut s' := rfl

/-- The current scope. -/
def scope : Step Scope := ⟨fun s => .done s.scope s, .refl⟩

/-- A step that the machine does by itself, in the scopes of the interpreter. -/
def lift (o : Interpreter → Outcome α)
    (h : ∀ s, (o s).Quiet s.machine) : Step α where
  run s :=
    match o s with
    | .done a machine => .done a { s with machine }
    | .stopped why machine => .stopped why { s with machine }
    | .outOfFuel machine => .cut { s with machine }
  later s := by
    have hs := h s
    cases ho : o s with
    | done a m | stopped why m | outOfFuel m =>
      rw [ho] at hs
      exact ⟨rfl, rfl, List.prefix_refl _, hs.1, by simp [Course.state, hs.2]⟩

theorem run_lift {o : Interpreter → Outcome α} {h : ∀ s, (o s).Quiet s.machine}
    (s : Interpreter) : (lift o h).run s = match o s with
      | .done a machine => .done a { s with machine }
      | .stopped why machine => .stopped why { s with machine }
      | .outOfFuel machine => .cut { s with machine } := rfl

def print (v : Value) : Step Unit where
  run s := .done () { s with machine := s.machine.print v }
  later _ := ⟨rfl, rfl, List.prefix_refl _, Store.Keeps.refl _ _, by
    simp [Course.state, Machine.print]⟩

/-- Makes a scope inside the given one, without going there. -/
def new (outer : Scope) : Step Scope where
  run s :=
    let (scope, machine) := s.machine.enter outer
    .done scope { s with machine, scopes := s.scopes ++ [scope] }
  later _ := ⟨rfl, rfl, List.prefix_append _ _, Store.keeps_grow _, List.prefix_refl _⟩

/-- Does the step in that scope, and comes back. -/
def within (scope : Scope) (t : Step α) : Step α where
  run s := (t.run { s with scope }).back s.scope
  later s := by
    have h := t.later { s with scope }
    rw [Course.state_back]
    exact ⟨rfl, h.globals, h.scopes, h.store, h.printed⟩

theorem run_within (scope : Scope) (t : Step α) (s : Interpreter) :
    (within scope t).run s = (t.run { s with scope }).back s.scope := rfl

end Step

end Scriptlet

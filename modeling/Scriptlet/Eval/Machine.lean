import Scriptlet.Variables

/-! The state of a run and the results of its steps. -/
namespace Scriptlet

/-- What a run changes: the variables, how many closures there have been, how often the clock has
been read, and what was printed. -/
structure Machine where
  store : Store Value
  closures : Nat
  readings : Nat
  printed : Array Value

/-- What a run finds where it is started: how many frames there are on the host's stack for it, and
what the host's clock shows in nanoseconds, one reading after another. -/
structure Host where
  frames : Nat
  clock : Nat → Int

/-- A host whose clock stands still during the run. -/
def Host.still (frames : Nat) (now : Int) : Host := ⟨frames, fun _ => now⟩

/-- The stack of the host where a step stands: the frames the run has taken so far, and the closing
parenthesis of the innermost call in progress. -/
structure Stack where
  host : Host
  taken : Nat
  caller : Option Token

namespace Stack

/-- Before the first statement of a run. -/
def start (host : Host) : Stack := ⟨host, 0, none⟩

def take (k : Stack) (frames : Nat) : Stack := { k with taken := k.taken + frames }

/-- In a call that was closed by this parenthesis, after so many frames more. -/
def enter (k : Stack) (frames : Nat) (paren : Token) : Stack :=
  { k.take frames with caller := some paren }

/-- A call that finds out that there are not enough frames, for itself or for any step in its body.
Outside of every call nobody finds out, and the host is taken to have room. -/
def overflow? (k : Stack) : Option Token := if k.host.frames < k.taken then k.caller else none

end Stack

/-- Each tree takes frames to be dispatched, to tell its form and to be carried out. -/
def treeFrames : Nat := 3

/-- The statements of a block take one in which they run one after another. -/
def blockFrames : Nat := 1

/-- A call takes a frame for the function and another one for its body. -/
def callFrames : Nat := 2

/-- What a step depends on without changing it: the current scope, and the stack of the host. -/
structure Context where
  scope : Scope
  stack : Stack

namespace Context

/-- For a tree inside the one that is carried out. -/
def deeper (c : Context) : Context := { c with stack := c.stack.take treeFrames }

/-- For the statements of a block that is carried out. -/
def inside (c : Context) (scope : Scope) : Context := ⟨scope, c.stack.take blockFrames⟩

/-- For a function that is called. -/
def calling (c : Context) (paren : Token) : Context :=
  { c with stack := c.stack.enter callFrames paren }

/-- For the body of the function. -/
def entering (c : Context) (scope : Scope) : Context := { c with scope }

@[simp] theorem scope_deeper (c : Context) : c.deeper.scope = c.scope := rfl

@[simp] theorem scope_inside (c : Context) (scope : Scope) : (c.inside scope).scope = scope := rfl

@[simp] theorem scope_calling (c : Context) (paren : Token) :
    (c.calling paren).scope = c.scope := rfl

@[simp] theorem scope_entering (c : Context) (scope : Scope) :
    (c.entering scope).scope = scope := rfl

@[simp] theorem stack_entering (c : Context) (scope : Scope) :
    (c.entering scope).stack = c.stack := rfl

end Context

/-- How a statement ends. -/
inductive Flow where
  | normal
  | jump (j : Jump)
  | give (v : Value)

/-- The result of a step; `outOfFuel` says that the bound was too low, and how far the step came. -/
inductive Outcome (α : Type) where
  | done (value : α) (m : Machine)
  | stopped (why : Stop) (m : Machine)
  | outOfFuel (m : Machine)

namespace Outcome

variable {α β : Type}

/-- Goes on with the value, if there is one. -/
@[inline] protected def bind (o : Outcome α) (f : α → Machine → Outcome β) : Outcome β :=
  match o with
  | done a m => f a m
  | stopped why m => stopped why m
  | outOfFuel m => outOfFuel m

@[simp] theorem bind_done (a : α) (m : Machine) (f : α → Machine → Outcome β) :
    (done a m).bind f = f a m := rfl

@[simp] theorem bind_stopped (why : Stop) (m : Machine) (f : α → Machine → Outcome β) :
    (stopped why m : Outcome α).bind f = stopped why m := rfl

@[simp] theorem bind_outOfFuel (m : Machine) (f : α → Machine → Outcome β) :
    (outOfFuel m : Outcome α).bind f = outOfFuel m := rfl

/-- A step that changes nothing. -/
@[inline] def ofExcept (m : Machine) : Except Stop α → Outcome α
  | .ok a => done a m
  | .error why => stopped why m

end Outcome

/-- A step for which there have to be enough frames. -/
@[inline] def Context.guard {α : Type} (c : Context) (m : Machine) (f : Context → Outcome α) :
    Outcome α :=
  match c.stack.overflow? with
  | some paren => .stopped (.error ⟨paren, .stackOverflow⟩) m
  | none => f c

theorem Context.guard_of_room {α : Type} {c : Context} {m : Machine} {f : Context → Outcome α}
    (hroom : c.stack.overflow? = none) : c.guard m f = f c := by
  rw [Context.guard, hroom]

theorem Context.guard_of_overflow {α : Type} {c : Context} {m : Machine}
    {f : Context → Outcome α} {paren : Token} (h : c.stack.overflow? = some paren) :
    c.guard m f = .stopped (.error ⟨paren, .stackOverflow⟩) m := by
  rw [Context.guard, h]

theorem Context.guard_eq_done {α : Type} {c : Context} {m m' : Machine}
    {f : Context → Outcome α} {a : α} (h : c.guard m f = .done a m') :
    c.stack.overflow? = none ∧ f c = .done a m' := by
  unfold guard at h
  split at h
  next => cases h
  next hroom => exact ⟨hroom, h⟩

namespace Machine

/-- A step that may change the variables, and leaves them when it fails. -/
@[inline] def update {α : Type} (m : Machine) (a : α) : Except Stop (Store Value) → Outcome α
  | .ok store => .done a { m with store }
  | .error why => .stopped why m

/-- Globals are in the outermost scope of the store. -/
def globals : Scope := .root 0

def define (m : Machine) (scope : Scope) (name : Token) (value : Value) : Outcome Unit :=
  m.update () (m.store.define scope name value)

/-- Defines the parameters, one after another. -/
def defineAll (scope : Scope) : List Token → List Value → Machine → Outcome Unit
  | p :: ps, v :: vs, m => (m.define scope p v).bind fun _ m => defineAll scope ps vs m
  | _, _, m => .done () m

def read (m : Machine) (c : Context) (name : Token) : Address → Outcome Value
  | .global => .ofExcept m (m.store.get globals name)
  | .up d => .ofExcept m (m.store.getAt c.scope d name)

/-- The value of an assignment is the value assigned. -/
def write (m : Machine) (c : Context) (name : Token) (value : Value) : Address → Outcome Value
  | .global => m.update value (m.store.assign globals name value)
  | .up d => m.update value (m.store.assignAt c.scope d name value)

@[simp] theorem read_deeper (m : Machine) (c : Context) : m.read c.deeper = m.read c := rfl

@[simp] theorem write_deeper (m : Machine) (c : Context) : m.write c.deeper = m.write c := rfl

/-- A new scope inside the given one. -/
def enter (m : Machine) (outer : Scope) : Scope × Machine :=
  (m.store.next (some outer), { m with store := m.store.grow })

def print (m : Machine) (value : Value) : Machine := { m with printed := m.printed.push value }

end Machine
end Scriptlet

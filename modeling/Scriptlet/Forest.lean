import Scriptlet.Variables

/-! Scopes under construction: a store together with all its scopes, numbered in the order they were
made, and the operations on them as commands. -/
namespace Scriptlet

structure Forest where
  store : Store Value
  scopes : List Scope

inductive Forest.Command where
  | new (parent : Option Nat)
  | define (scope : Nat) (name : Token) (value : Value)
  | assign (scope : Nat) (name : Token) (value : Value)
  | get (scope : Nat) (name : Token)
  | getAt (scope : Nat) (distance : Int) (name : Token)
  | assignAt (scope : Nat) (distance : Int) (name : Token) (value : Value)

namespace Forest

def empty : Forest := ⟨.empty, []⟩

/-- A command that reads gives the value read, one that assigns at a distance the value assigned. -/
abbrev Answer := Except Stop (Option Value)

def grow (f : Forest) (outer : Option Scope) : Forest :=
  ⟨f.store.grow, f.scopes ++ [f.store.next outer]⟩

/-- A failed change leaves the store alone. -/
def update (f : Forest) (answer : Option Value) : Except Stop (Store Value) → Answer × Forest
  | .ok store => (.ok answer, { f with store })
  | .error why => (.error why, f)

def reading (f : Forest) : Except Stop Value → Answer × Forest
  | .ok v => (.ok (some v), f)
  | .error why => (.error why, f)

/-- A command on a scope that is not there does nothing. -/
def onScope (f : Forest) (i : Nat) (act : Scope → Answer × Forest) : Answer × Forest :=
  match f.scopes[i]? with
  | some scope => act scope
  | none => (.ok none, f)

def step (f : Forest) : Command → Answer × Forest
  | .new none => (.ok none, f.grow none)
  | .new (some i) => f.onScope i fun outer => (.ok none, f.grow (some outer))
  | .define i name v => f.onScope i fun scope => f.update none (f.store.define scope name v)
  | .assign i name v => f.onScope i fun scope => f.update none (f.store.assign scope name v)
  | .get i name => f.onScope i fun scope => f.reading (f.store.get scope name)
  | .getAt i d name => f.onScope i fun scope => f.reading (f.store.getAt scope d name)
  | .assignAt i d name v =>
    f.onScope i fun scope => f.update (some v) (f.store.assignAt scope d name v)

/-- The variables of each scope itself. -/
def frames (f : Forest) : List (Frame Value) := f.scopes.map fun scope => f.store.frame scope.frame

/-- The answers, each with the variables after it. -/
def script : Forest → List Command → List (Answer × List (Frame Value))
  | _, [] => []
  | f, c :: cs =>
    let (answer, f) := f.step c
    (answer, f.frames) :: f.script cs

end Forest
end Scriptlet

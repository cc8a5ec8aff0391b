/-! Variables at run time. A scope names its frame and the scope around it; the frames themselves
are in the store, so that all who hold a scope see what is assigned in it. -/
namespace Scriptlet

/-- The frame of a scope, and the scope around it. -/
inductive Scope where
  | root (frame : Nat)
  | inner (frame : Nat) (outer : Scope)
deriving DecidableEq, Repr

/-- Why there is no scope so far outward. -/
inductive DistanceError where
  | negative (distance : Int)
  | tooFar
deriving DecidableEq, Repr

namespace Scope

def frame : Scope → Nat
  | root f | inner f _ => f

/-- The scope so many steps outward. -/
def up? : Scope → Nat → Option Scope
  | scope, 0 => some scope
  | root _, _ + 1 => none
  | inner _ outer, n + 1 => outer.up? n

def ancestor (scope : Scope) (distance : Int) : Except DistanceError Scope :=
  if distance < 0 then .error (.negative distance)
  else match scope.up? distance.toNat with
    | some outer => .ok outer
    | none => .error .tooFar

end Scope

variable {α : Type}

/-- The variables of one scope, each once. -/
abbrev Frame (α : Type) := List (String × α)

namespace Frame

def binds (f : Frame α) (name : String) : Bool := (f.lookup name).isSome

/-- A variable that is there gets the value. -/
def set (name : String) (value : α) : Frame α → Frame α
  | [] => []
  | (n, v) :: rest => if n = name then (n, value) :: rest else (n, v) :: set name value rest

end Frame

structure Store (α : Type) where
  frames : Array (Frame α)

namespace Store

def empty : Store α := ⟨#[]⟩

def frame (s : Store α) (f : Nat) : Frame α := s.frames.getD f []

/-- The scope itself has the name. -/
def binds (s : Store α) (scope : Scope) (name : String) : Bool := (s.frame scope.frame).binds name

/-- A new scope inside the given one, or around nothing. -/
def next (s : Store α) : Option Scope → Scope
  | none => .root s.frames.size
  | some outer => .inner s.frames.size outer

/-- The store with a frame for its next scope, which has no variable yet. -/
def grow (s : Store α) : Store α := ⟨s.frames.push []⟩

/-- The variable of the scope itself. -/
def read? (s : Store α) (scope : Scope) (name : String) : Option α :=
  (s.frame scope.frame).lookup name

/-- A variable more in the scope itself. -/
def add (s : Store α) (scope : Scope) (name : String) (value : α) : Store α :=
  ⟨s.frames.modify scope.frame ((name, value) :: ·)⟩

/-- Another value for the variable of the scope itself. -/
def set (s : Store α) (scope : Scope) (name : String) (value : α) : Store α :=
  ⟨s.frames.modify scope.frame (Frame.set name value)⟩

/-- The innermost scope, from the given one outward, that has the name. -/
def find? (s : Store α) (name : String) : Scope → Option Scope
  | .root f => if (s.frame f).binds name then some (.root f) else none
  | .inner f outer =>
    if (s.frame f).binds name then some (.inner f outer) else s.find? name outer

end Store
end Scriptlet

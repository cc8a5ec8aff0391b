import Scriptlet.Failure

/-! Access to variables by the tokens that name them. What fails changes nothing. -/
namespace Scriptlet.Store

variable {α : Type}

/-- A new variable; the scope itself must not have the name. -/
@[inline] def define (s : Store α) (scope : Scope) (name : Token) (value : α) :
    Except Stop (Store α) :=
  if s.binds scope name.lexeme then .error (.error ⟨name, .alreadyDefined⟩)
  else .ok (s.add scope name.lexeme value)

/-- The variable of the scope itself. -/
@[inline] def getHere (s : Store α) (scope : Scope) (name : Token) : Except Stop α :=
  match s.read? scope name.lexeme with
  | some value => .ok value
  | none => .error (.error ⟨name, .undefined⟩)

@[inline] def assignHere (s : Store α) (scope : Scope) (name : Token) (value : α) :
    Except Stop (Store α) :=
  if s.binds scope name.lexeme then .ok (s.set scope name.lexeme value)
  else .error (.error ⟨name, .undefined⟩)

/-- The variable that the name means in the scope. -/
@[inline] def get (s : Store α) (scope : Scope) (name : Token) : Except Stop α :=
  match s.find? name.lexeme scope with
  | some owner => s.getHere owner name
  | none => .error (.error ⟨name, .undefined⟩)

@[inline] def assign (s : Store α) (scope : Scope) (name : Token) (value : α) :
    Except Stop (Store α) :=
  match s.find? name.lexeme scope with
  | some owner => s.assignHere owner name value
  | none => .error (.error ⟨name, .undefined⟩)

/-- Looks in one scope only. -/
@[inline] def getAt (s : Store α) (scope : Scope) (distance : Int) (name : Token) :
    Except Stop α :=
  match scope.ancestor distance with
  | .ok owner => s.getHere owner name
  | .error e => .error (.fault (.distance e))

@[inline] def assignAt (s : Store α) (scope : Scope) (distance : Int) (name : Token) (value : α) :
    Except Stop (Store α) :=
  match scope.ancestor distance with
  | .ok owner => s.assignHere owner name value
  | .error e => .error (.fault (.distance e))

end Scriptlet.Store

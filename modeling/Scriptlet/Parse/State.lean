import Scriptlet.Parse.Diagnostic

/-! The state of a parser and its elementary steps. A parser is always one token ahead. -/
namespace Scriptlet.Parse

/-- While `panicking`, further errors are taken for echoes of the last one. -/
structure State where
  current : Token
  rest : List Token
  panicking : Bool
  reports : List Diagnostic
deriving Repr

/-- Why parsing ends before the end of the program. `outOfTokens`: the tokens stop without `eof`.
`outOfFuel` is not reached from `parse`. -/
inductive Halt where
  | nesting
  | outOfTokens
  | badNumber (lexeme : String)
  | outOfFuel
deriving DecidableEq, Repr

/-- `bad` is an error of syntax, already reported, from which the enclosing declaration recovers. -/
inductive Result (α : Type) where
  | ok (value : α) (s : State)
  | bad (s : State)
  | halt (cause : Halt) (s : State)

def Parser (α : Type) : Type := State → Result α

@[inline] protected def Parser.pure {α : Type} (a : α) : Parser α := fun s => .ok a s

@[inline] protected def Parser.bind {α β : Type} (p : Parser α) (f : α → Parser β) : Parser β :=
  fun s =>
    match p s with
    | .ok a s => f a s
    | .bad s => .bad s
    | .halt cause s => .halt cause s

instance : Monad Parser where
  pure := Parser.pure
  bind := Parser.bind

namespace State

def atEnd (s : State) : Bool := s.current.kind == .eof

def report (s : State) (t : Token) (cause : SyntaxError) : State :=
  { s with panicking := true, reports := s.reports ++ [⟨t, cause, s.panicking⟩] }

def calm (s : State) : State := { s with panicking := false }

/-- Reports the error tokens at the front of `ts`, each for itself, and stops at the next token that
is none. -/
def pullFrom (s : State) : List Token → Option State
  | [] => none
  | t :: ts =>
    if t.kind = .error then (s.calm.report t (.lexical t.lexeme)).pullFrom ts
    else some { s with current := t, rest := ts }

def pull (s : State) : Option State := s.pullFrom s.rest

theorem length_pullFrom {s r : State} {ts : List Token} (h : s.pullFrom ts = some r) :
    r.rest.length < ts.length := by
  induction ts generalizing s with
  | nil => simp [pullFrom] at h
  | cons t ts ih =>
    unfold pullFrom at h
    split at h
    · exact Nat.lt_succ_of_lt (ih h)
    · obtain rfl := Option.some.inj h
      simp

theorem length_pull {s r : State} (h : s.pull = some r) : r.rest.length < s.rest.length :=
  length_pullFrom h

/-- The kinds of token that a statement starts with and an expression never holds. -/
def starters : List Kind :=
  [.kwDo, .kwFor, .kwFunction, .kwIf, .kwPrint, .kwReturn, .kwSwitch, .kwVar, .kwWhile]

/-- Where recovery stands at a token: the next statement may start here, or past this token, or
neither, and then so many braces are open after it. -/
inductive Landing where
  | here
  | past
  | onward (depth : Nat)
deriving DecidableEq, Repr

/-- A statement may start at the end, before a starter, past a semicolon and past a group in braces.
A closing brace without its opening one belongs to the block around; at top level there is none, and
it is passed. -/
def landing (inBlock : Bool) : Kind → Nat → Landing
  | .eof, _ => .here
  | .leftBrace, depth => .onward (depth + 1)
  | .rightBrace, 0 => if inBlock then .here else .past
  | .rightBrace, 1 => .past
  | .rightBrace, depth + 2 => .onward (depth + 1)
  | .semicolon, 0 => .past
  | kind, 0 => if kind ∈ starters then .here else .onward 0
  | _, depth => .onward depth

/-- Skips to where the next statement may start; `none` when the tokens stop before that. -/
def recover (s : State) (inBlock : Bool) (depth : Nat) : Option State :=
  match landing inBlock s.current.kind depth with
  | .here => some s
  | .past => s.pull
  | .onward depth =>
    match _h : s.pull with
    | none => none
    | some r => r.recover inBlock depth
termination_by s.rest.length
decreasing_by exact length_pull _h

end State

variable {α : Type}

def halt (cause : Halt) : Parser α := fun s => .halt cause s

/-- The current token, passed; `eof` is never passed. -/
def advance : Parser Token := fun s =>
  if s.atEnd then .ok s.current s
  else match s.pull with
    | some r => .ok s.current r
    | none => .halt .outOfTokens s

def peek : Parser Kind := fun s => .ok s.current.kind s

def check (kind : Kind) : Parser Bool := fun s => .ok (s.current.kind == kind) s

/-- The current token, passed, if it is of one of the kinds. -/
def accept (kinds : List Kind) : Parser (Option Token) := do
  if (← peek) ∈ kinds then return some (← advance) else return none

def report (t : Token) (cause : SyntaxError) : Parser Unit := fun s => .ok () (s.report t cause)

def reportHere (cause : SyntaxError) : Parser Unit := fun s => .ok () (s.report s.current cause)

def fail (cause : SyntaxError) : Parser α := fun s => .bad (s.report s.current cause)

/-- The token that has to stand here. -/
def expect (slot : Slot) : Parser Token := do
  if ← check slot.kind then advance else fail (.expected slot)

/-- Starts calm; an error inside is followed by recovery, and then there is no value. -/
def recovering (inBlock : Bool) (p : Parser α) : Parser (Option α) := fun s =>
  match p s.calm with
  | .ok a s => .ok (some a) s
  | .bad s =>
    match s.recover inBlock 0 with
    | some r => .ok none r
    | none => .halt .outOfTokens s
  | .halt cause s => .halt cause s

end Scriptlet.Parse

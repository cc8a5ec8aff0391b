import Scriptlet.Parse.Statement
import Scriptlet.Text.Quoted

/-! Parsing a whole program. -/
namespace Scriptlet

open Parse

/-- The statements that could be made out, and the errors, echoes included, in the order they were
found. -/
structure Parsed where
  statements : List (Stmt Unit)
  reports : List Diagnostic

/-- Why a list of tokens has no parse at all. The tokens of a text never give a reason. -/
inductive ParseFault where
  | outOfTokens
  | badNumber (lexeme : String)
  | outOfFuel
deriving DecidableEq, Repr

def ParseFault.message : ParseFault → String
  | outOfTokens | outOfFuel => ""
  | badNumber lexeme => "could not convert string to float: " ++ Text.quoted lexeme

namespace Parse

/-- How a list of declarations ended. -/
inductive Ending where
  | done (s : State)
  | halted (cause : Halt) (s : State)

/-- The declarations through `eof`, as far as they go. A declaration recovers from its own errors,
so it is never `bad`. -/
def program : Nat → Nat → State → List (Stmt Unit) × Ending
  | 0, _, s => ([], .halted .outOfFuel s)
  | n + 1, room, s =>
    if s.atEnd then ([], .done s)
    else match declaration n (.top room) s with
      | .ok d s =>
        let (rest, ending) := program n room s
        (d.toList ++ rest, ending)
      | .bad s => ([], .done s)
      | .halt cause s => ([], .halted cause s)

/-- Of nesting that is too deep, what stood before it is kept. -/
def Ending.close (statements : List (Stmt Unit)) : Ending → Except ParseFault Parsed
  | .done s => .ok ⟨statements, s.reports⟩
  | .halted .nesting s => .ok ⟨statements, (s.calm.report s.current .tooDeep).reports⟩
  | .halted .outOfTokens _ => .error .outOfTokens
  | .halted (.badNumber lexeme) _ => .error (.badNumber lexeme)
  | .halted .outOfFuel _ => .error .outOfFuel

/-- The state before the first declaration, if there is a token at all that is no error. -/
def State.start? (tokens : List Token) : Option State :=
  State.pull ⟨default, tokens, false, []⟩

/-- Between two tokens the grammar is at most so many rules deep. -/
def rulesPerToken : Nat := 24

end Parse

/-- Reads tokens through the first `eof`. There is room for the rules of an operand, and for so many
more that expressions inside each other may take. -/
def parse (room : Nat) (tokens : List Token) : Except ParseFault Parsed :=
  match State.start? tokens with
  | none => .error .outOfTokens
  | some s =>
    let (statements, ending) :=
      program (rulesPerToken * (tokens.length + 2)) (operandRules + room) s
    ending.close statements

end Scriptlet

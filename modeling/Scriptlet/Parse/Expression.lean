import Scriptlet.Parse.State
import Scriptlet.Numeral.Read

/-! The grammar of expressions, from the comma down to the literals. -/
namespace Scriptlet.Parse

/-- How tightly an expression binds, the loosest first. -/
inductive Level where
  | comma | assignment | conditional | or | and | equality | comparison | term | factor
  | unary | call | primary
deriving DecidableEq, Repr

namespace Level

/-- The operators of a level whose operands are joined from left to right; the other levels have
none. -/
def operators : Level → List Kind
  | comma => [.comma]
  | or => [.or]
  | and => [.and]
  | equality => [.bangEqual, .equalEqual]
  | comparison => [.greater, .greaterEqual, .less, .lessEqual]
  | term => [.minus, .plus, .percent]
  | factor => [.slash, .star]
  | _ => []

def tighter : Level → Level
  | comma => assignment
  | assignment => conditional
  | conditional => or
  | or => and
  | and => equality
  | equality => comparison
  | comparison => term
  | term => factor
  | factor => unary
  | unary => call
  | _ => primary

end Level

/-- The text between the quotes. -/
def unquote (lexeme : String) : String := String.ofList (lexeme.toList.drop 1).dropLast

def literal (value : Literal) : Parser (Expr Unit) := do
  let _ ← advance
  return .literal value

def numberLiteral : Parser (Expr Unit) := do
  let t ← advance
  match readNumber? t.lexeme with
  | some x => return .literal (.number x)
  | none => halt (.badNumber t.lexeme)

def stringLiteral : Parser (Expr Unit) := do
  let t ← advance
  return .literal (.string (unquote t.lexeme))

/-- An operand alone is read by so many rules, one inside the other, from the comma down. -/
def operandRules : Nat := 12

mutual

/-- An expression that binds at least as tightly as the level. So many rules may be in progress at
once, this one included; a rule beyond them is too much nesting. -/
def expr : Nat → Nat → Level → Parser (Expr Unit)
  | 0, _, _ => halt .outOfFuel
  | _ + 1, 0, _ => halt .nesting
  | n + 1, room + 1, .assignment => do
    let target ← expr n room .conditional
    match ← accept [.equal] with
    | none => return target
    | some equals =>
      let value ← expr n room .assignment
      match target with
      | .reference name use => return .assign name value use
      | _ =>
        report equals .assignmentTarget
        return target
  | n + 1, room + 1, .conditional => do
    let condition ← expr n room .or
    match ← accept [.question] with
    | none => return condition
    | some _ =>
      let thenBranch ← expr n room .comma
      let _ ← expect .conditionalColon
      let elseBranch ← expr n room .conditional
      return .conditional condition thenBranch elseBranch
  | n + 1, room + 1, .unary => do
    match ← accept [.bang, .minus] with
    | some operator => return .unary operator (← expr n room .unary)
    | none => expr n room .call
  | n + 1, room + 1, .call => do calls n room (← expr n room .primary)
  | n + 1, room + 1, .primary => do
    match ← peek with
    | .kwFalse => literal (.bool false)
    | .kwTrue => literal (.bool true)
    | .kwNil => literal .nil
    | .number => numberLiteral
    | .string => stringLiteral
    | .leftParen =>
      let _ ← advance
      let inner ← expr n room .comma
      let _ ← expect .groupingClose
      return .grouping inner
    | .identifier => return .reference (← advance) ()
    | _ => fail .noExpression
  | n + 1, room + 1, level => do operands n room level (← expr n room level.tighter)
termination_by structural fuel => fuel

/-- The operators and operands that follow `left` on a level that joins from left to right. -/
def operands : Nat → Nat → Level → Expr Unit → Parser (Expr Unit)
  | 0, _, _, _ => halt .outOfFuel
  | n + 1, room, level, left => do
    match ← accept level.operators with
    | some operator => operands n room level (.binary left operator (← expr n room level.tighter))
    | none => return left
termination_by structural fuel => fuel

/-- The argument lists that follow a callee. -/
def calls : Nat → Nat → Expr Unit → Parser (Expr Unit)
  | 0, _, _ => halt .outOfFuel
  | n + 1, room, callee => do
    match ← accept [.leftParen] with
    | none => return callee
    | some _ =>
      let args ← if ← check .rightParen then pure [] else arguments n room 0
      let paren ← expect .argumentsClose
      calls n room (.call callee paren args)
termination_by structural fuel => fuel

/-- One argument or more, when `count` stand before them. -/
def arguments : Nat → Nat → Nat → Parser (List (Expr Unit))
  | 0, _, _ => halt .outOfFuel
  | n + 1, room, count => do
    if maxArguments ≤ count then reportHere .tooManyArguments
    let first ← expr n room .assignment
    match ← accept [.comma] with
    | some _ => return first :: (← arguments n room (count + 1))
    | none => return [first]
termination_by structural fuel => fuel

end

end Scriptlet.Parse

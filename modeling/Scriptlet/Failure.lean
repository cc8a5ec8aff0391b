import Scriptlet.Value

/-! What ends an evaluation before it has a value. -/
namespace Scriptlet

inductive RuntimeCause where
  | alreadyDefined
  | undefined
  | divisionByZero
  | notCallable
  | argumentCount (expected given : Nat)
  | stackOverflow
  | operand (type : TypeName)
  | operands (left right : TypeName)
deriving DecidableEq, Repr

/-- An error of the program, and the token it is blamed on. -/
structure RuntimeError where
  token : Token
  cause : RuntimeCause
deriving DecidableEq, Repr

namespace RuntimeError

def message (e : RuntimeError) : String :=
  match e.cause with
  | .alreadyDefined => "Variable '" ++ e.token.lexeme ++ "' already defined in this scope."
  | .undefined => "Undefined variable '" ++ e.token.lexeme ++ "'."
  | .divisionByZero => "Division by 0."
  | .notCallable => "Can only call functions."
  | .argumentCount expected given =>
    "Expected " ++ toString expected ++ " arguments but got " ++ toString given ++ "."
  | .stackOverflow => "Stack overflow."
  | .operand type =>
    "Bad operand type for unary '" ++ e.token.lexeme ++ "': '" ++ type.text ++ "'."
  | .operands left right =>
    "Unsupported operand type(s) for '" ++ e.token.lexeme ++ "': '" ++ left.text ++ "' and '" ++
      right.text ++ "'."

def line (e : RuntimeError) : String :=
  "[Line " ++ toString e.token.pos.line ++ "] Runtime error: " ++ e.message

end RuntimeError

/-- What is no error of the program: the remainder of an infinity, and trees with addresses or
operators that no program text gives. -/
inductive Fault where
  | infiniteRemainder
  | distance (e : DistanceError)
  | binaryOperator (kind : Kind)
  | unaryOperator (kind : Kind)
deriving DecidableEq, Repr

def Fault.message : Fault → String
  | infiniteRemainder => "math domain error"
  | distance (.negative d) => "Negative distance " ++ toString d ++ "."
  | distance .tooFar => "Distance exceeds number of ancestors."
  | binaryOperator kind => "Unsupported binary operator " ++ kind.name
  | unaryOperator kind => "Unsupported unary operator " ++ kind.name

inductive Stop where
  | error (e : RuntimeError)
  | fault (f : Fault)
deriving DecidableEq, Repr

end Scriptlet

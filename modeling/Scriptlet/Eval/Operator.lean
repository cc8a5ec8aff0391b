import Scriptlet.Failure
import Scriptlet.Numeral.Remainder

/-! What the operators compute from the values of their operands. -/
namespace Scriptlet

/-- An operator of two numbers. -/
def arithmetic (operator : Token) (f : Float → Float → Except Stop Value) :
    Value → Value → Except Stop Value
  | .number x, .number y => f x y
  | left, right => .error (.error ⟨operator, .operands left.typeName right.typeName⟩)

/-- A division, or its remainder, by anything but zero. -/
def dividing (operator : Token) (f : Float → Float → Except Stop Value) (x y : Float) :
    Except Stop Value :=
  if y == 0.0 then .error (.error ⟨operator, .divisionByZero⟩) else f x y

def remainder (x y : Float) : Except Stop Value :=
  match remainder? x y with
  | some r => .ok (.number r)
  | none => .error (.fault .infiniteRemainder)

/-- Both operands of these operators have been evaluated, whatever the operator does with them. -/
def binary (operator : Token) (left right : Value) : Except Stop Value :=
  match operator.kind with
  | .comma => .ok right
  | .bangEqual => .ok (.bool !(left.isEqual right))
  | .equalEqual => .ok (.bool (left.isEqual right))
  | .greater => arithmetic operator (fun x y => .ok (.bool (y < x))) left right
  | .greaterEqual => arithmetic operator (fun x y => .ok (.bool (y ≤ x))) left right
  | .less => arithmetic operator (fun x y => .ok (.bool (x < y))) left right
  | .lessEqual => arithmetic operator (fun x y => .ok (.bool (x ≤ y))) left right
  | .minus => arithmetic operator (fun x y => .ok (.number (x - y))) left right
  | .plus =>
    match left, right with
    | .string s, .string t => .ok (.string (s ++ t))
    | _, _ => arithmetic operator (fun x y => .ok (.number (x + y))) left right
  | .slash => arithmetic operator (dividing operator fun x y => .ok (.number (x / y))) left right
  | .percent => arithmetic operator (dividing operator remainder) left right
  | .star => arithmetic operator (fun x y => .ok (.number (x * y))) left right
  | kind => .error (.fault (.binaryOperator kind))

def unary (operator : Token) (right : Value) : Except Stop Value :=
  match operator.kind with
  | .bang => .ok (.bool !right.isTruthy)
  | .minus =>
    match right with
    | .number x => .ok (.number (-x))
    | _ => .error (.error ⟨operator, .operand right.typeName⟩)
  | kind => .error (.fault (.unaryOperator kind))

end Scriptlet

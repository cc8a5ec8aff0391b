import Mathlib.Data.List.Forall2
import Scriptlet.Proofs.Evaluation.Operators

/-! Values that operators do not tell apart. -/
namespace Scriptlet

/-- The same value, or functions that count as the same. -/
inductive Value.Alike : Value → Value → Prop where
  | same (v : Value) : Alike v v
  | closure {f g : Closure} (h : f.serial = g.serial) : Alike (.closure f) (.closure g)

namespace Value.Alike

variable {v v' w w' : Value}

theorem isTruthy_eq (h : v.Alike v') : v'.isTruthy = v.isTruthy := by
  cases h <;> rfl

theorem typeName_eq (h : v.Alike v') : v'.typeName = v.typeName := by
  cases h <;> rfl

theorem isEqual_eq (h : v.Alike v') (hw : w.Alike w') : v'.isEqual w' = v.isEqual w := by
  cases h with
  | same => cases hw with
    | same => rfl
    | closure hw => cases v <;> first | rfl | simp [Value.isEqual, hw]
  | closure h => cases hw with
    | same => cases w <;> first | rfl | simp [Value.isEqual, h]
    | closure hw => simp [Value.isEqual, h, hw]

/-- A function is not an operand of arithmetic. -/
theorem arithmetic_eq (h : v.Alike v') (hw : w.Alike w') (operator : Token)
    (g : Float → Float → Except Stop Value) :
    arithmetic operator g v' w' = arithmetic operator g v w := by
  have htype := hw.typeName_eq
  cases h with
  | same => cases hw with
    | same => rfl
    | closure => cases v <;> rfl
  | closure =>
    change Except.error (Stop.error ⟨operator, .operands .function w'.typeName⟩) =
      .error (.error ⟨operator, .operands .function w.typeName⟩)
    rw [htype]

/-- The comma does nothing with its operands. -/
theorem binary_eq (h : v.Alike v') (hw : w.Alike w') {operator : Token}
    (hk : operator.kind ≠ .comma) : binary operator v' w' = binary operator v w := by
  have harithmetic := arithmetic_eq h hw operator
  unfold binary
  split
  case h_1 hcomma => exact absurd hcomma hk
  case h_2 | h_3 => rw [h.isEqual_eq hw]
  case h_9 =>
    cases h with
    | same => cases hw with
      | same => rfl
      | closure => cases v <;> exact harithmetic _
    | closure => exact harithmetic _
  case h_13 => rfl
  all_goals exact harithmetic _

theorem unary_eq (h : v.Alike v') (operator : Token) : unary operator v' = unary operator v := by
  cases h <;> rfl

theorem apply_eq {vs vs' : List Value} (h : List.Forall₂ Alike vs vs') (now : Int) (f : Native) :
    f.apply now vs' = f.apply now vs := by
  cases h with
  | nil => rfl
  | cons hv =>
    cases f with
    | clock => rfl
    | typeof =>
      unfold Native.apply
      simp only [hv.typeName_eq]

end Value.Alike

/-- Values that print alike have the same lines. -/
theorem Value.lines_congr {vs ws : Array Value} (h : ws.map print = vs.map print) :
    lines ws = lines vs := by
  have hlines (us : Array Value) :
      lines us = (us.map print).foldl (fun text line => text ++ line ++ "\n") "" := by
    rw [Array.foldl_map]
    rfl
  rw [hlines, hlines, h]

def Callee.value : Callee → Value
  | native f => .native f
  | closure f => .closure f

theorem binary_comma {operator : Token} (hk : operator.kind = .comma) (v w : Value) :
    binary operator v w = .ok w := by
  unfold binary
  rw [hk]

end Scriptlet

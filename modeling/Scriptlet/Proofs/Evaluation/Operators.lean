import Scriptlet.Eval.Run
import Scriptlet.Parse.Expression

/-! What becomes of the operands of an operator, said once: the values, the errors of the program
and the faults there are. -/
namespace Scriptlet

variable {operator : Token} {l r : Value} {f : Closure}

/-- What a binary operator makes of the values of its operands. -/
inductive Combined (operator : Token) : Value → Value → Except Stop Value → Prop where
  | last {l r : Value} (hk : operator.kind = .comma) : Combined operator l r (.ok r)
  | bool {l r : Value} (b : Bool) : Combined operator l r (.ok (.bool b))
  | number {l r : Value} (x : Float) : Combined operator l r (.ok (.number x))
  | joined (s t : String) : Combined operator (.string s) (.string t) (.ok (.string (s ++ t)))
  | operands {l r : Value} :
    Combined operator l r (.error (.error ⟨operator, .operands l.typeName r.typeName⟩))
  | byZero {l r : Value} : Combined operator l r (.error (.error ⟨operator, .divisionByZero⟩))
  | infinite {x y : Float} (hk : operator.kind = .percent) (hx : x.isInf = true)
    (hzero : (y == 0.0) = false) (hnan : y.isNaN = false) :
    Combined operator (.number x) (.number y) (.error (.fault .infiniteRemainder))
  | unknown {l r : Value} (hk : ∀ level : Parse.Level, operator.kind ∈ level.operators →
      operator.kind = .and ∨ operator.kind = .or) :
    Combined operator l r (.error (.fault (.binaryOperator operator.kind)))

theorem combined_arithmetic {g : Float → Float → Except Stop Value}
    (hg : ∀ x y, Combined operator (.number x) (.number y) (g x y)) (l r : Value) :
    Combined operator l r (arithmetic operator g l r) := by
  unfold arithmetic
  split
  next x y => exact hg x y
  next => exact .operands

theorem combined_dividing {g : Float → Float → Except Stop Value}
    (hg : ∀ x y, (y == 0.0) = false → Combined operator (.number x) (.number y) (g x y))
    (x y : Float) : Combined operator (.number x) (.number y) (dividing operator g x y) := by
  unfold dividing
  split
  next => exact .byZero
  next hzero => exact hg x y (by simpa using hzero)

/-- Only an infinity has no remainder. -/
theorem combined_remainder (hk : operator.kind = .percent) (x y : Float)
    (hzero : (y == 0.0) = false) :
    Combined operator (.number x) (.number y) (remainder x y) := by
  unfold remainder
  cases hr : remainder? x y with
  | some z => exact .number z
  | none =>
    unfold remainder? at hr
    split at hr
    next => cases hr
    next hnan =>
      rw [Bool.not_eq_true, Bool.or_eq_false_iff] at hnan
      split at hr
      next hinf => exact .infinite hk hinf hzero hnan.2
      next => split at hr <;> cases hr

theorem combined_binary (operator : Token) (l r : Value) :
    Combined operator l r (binary operator l r) := by
  unfold binary
  split
  case h_1 hk => exact .last hk
  case h_2 | h_3 => exact .bool _
  case h_4 | h_5 | h_6 | h_7 => exact combined_arithmetic (fun _ _ => .bool _) l r
  case h_8 | h_12 => exact combined_arithmetic (fun _ _ => .number _) l r
  case h_9 =>
    split
    next s t => exact .joined s t
    next => exact combined_arithmetic (fun _ _ => .number _) l r
  case h_10 => exact combined_arithmetic (combined_dividing fun _ _ _ => .number _) l r
  case h_11 hk => exact combined_arithmetic (combined_dividing (combined_remainder hk)) l r
  case h_13 =>
    refine .unknown fun level hk => ?_
    cases level <;> simp_all [Parse.Level.operators]

/-- What a unary operator makes of the value of its operand. -/
inductive Turned (operator : Token) (r : Value) : Except Stop Value → Prop where
  | bool (b : Bool) : Turned operator r (.ok (.bool b))
  | number (x : Float) : Turned operator r (.ok (.number x))
  | operand : Turned operator r (.error (.error ⟨operator, .operand r.typeName⟩))
  | unknown (hk : operator.kind ∉ [Kind.bang, .minus]) :
    Turned operator r (.error (.fault (.unaryOperator operator.kind)))

theorem turned_unary (operator : Token) (r : Value) : Turned operator r (unary operator r) := by
  unfold unary
  split
  next => exact .bool _
  next =>
    split
    next x => exact .number _
    next => exact .operand
  next hbang hminus =>
    refine .unknown fun hk => ?_
    rcases List.mem_cons.1 hk with hk | hk
    · exact hbang hk
    · exact hminus (List.mem_singleton.1 hk)

/-! Operators and natives make no functions; the comma passes one on. -/

theorem binary_eq_closure (h : binary operator l r = .ok (.closure f)) :
    operator.kind = .comma ∧ r = .closure f := by
  have hmade := combined_binary operator l r
  rw [h] at hmade
  cases hmade with
  | last hk => exact ⟨hk, rfl⟩

theorem unary_ne_closure : unary operator r ≠ .ok (.closure f) := by
  intro h
  have hmade := turned_unary operator r
  rw [h] at hmade
  cases hmade

theorem apply_ne_closure (now : Int) (f : Native) (vs : List Value) (g : Closure) :
    f.apply now vs ≠ .closure g := by
  unfold Native.apply
  split <;> simp

end Scriptlet

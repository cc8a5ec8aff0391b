import Scriptlet.Numeral.Binary

/-! The remainder of a division that truncates. -/
namespace Scriptlet

/-- The remainder of two finite magnitudes is a multiple of the smaller last place. -/
def Binary.mod (x y : Binary) : Nat × Int :=
  let e := min x.exponent y.exponent
  let m := x.mantissa * Nat.pow 2 (x.exponent - e).toNat
  let n := y.mantissa * Nat.pow 2 (y.exponent - e).toNat
  (m % n, e)

/-- What is left of `x` after whole steps of `y` towards zero, with the sign of `x`; it is exact. An
infinite `x` has no remainder. For `y` other than zero. -/
def remainder? (x y : Float) : Option Float :=
  if x.isNaN || y.isNaN then some (0.0 / 0.0)
  else if x.isInf then none
  else if y.isInf then some x
  else
    let (m, e) := (Binary.ofFloat x).mod (Binary.ofFloat y)
    some (Binary.toFloat (signed x) m e)

end Scriptlet

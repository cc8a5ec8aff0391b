/-! Finite numbers as exact binary fractions, read off their bits and put back. -/
namespace Scriptlet

/-- A finite number without its sign: `mantissa * 2 ^ exponent`. -/
structure Binary where
  mantissa : Nat
  exponent : Int
  /-- The next number below is half as far away as the next number above. -/
  narrow : Bool
deriving DecidableEq, Repr

namespace Binary

/-- Of a finite number; there is no such fraction for an infinity or a NaN. -/
def ofFloat (x : Float) : Binary :=
  let bits := x.toBits.toNat
  let field : Nat := bits / Nat.pow 2 52 % Nat.pow 2 11
  let fraction := bits % Nat.pow 2 52
  if field = 0 then ⟨fraction, -1074, false⟩
  else ⟨Nat.pow 2 52 + fraction, (field : Int) - 1075, fraction == 0 && field != 1⟩

/-- The number `m * 2 ^ e`, for `m` below `2 ^ 53` and `e` at least -1074 and in range: no rounding
happens. -/
def toFloat (negative : Bool) (m : Nat) (e : Int) : Float :=
  let shift := min (52 - m.log2) (e + 1074).toNat
  let scaled := m * Nat.pow 2 shift
  let field := if scaled < Nat.pow 2 52 then 0 else (e - shift + 1075).toNat
  let sign := if negative then Nat.pow 2 63 else 0
  .ofBits (.ofNat (sign + field * Nat.pow 2 52 + scaled % Nat.pow 2 52))

end Binary

/-- The sign bit, which zeros have too. -/
def signed (x : Float) : Bool := x.toBits.toNat / Nat.pow 2 63 = 1

end Scriptlet

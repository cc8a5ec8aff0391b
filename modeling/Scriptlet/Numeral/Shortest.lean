import Scriptlet.Numeral.Binary

/-! The fewest decimal digits that single out a number among all others. -/
namespace Scriptlet

/-- The fraction `0.d₁d₂… * 10 ^ point`. -/
structure Decimal where
  digits : List Char
  point : Int
deriving DecidableEq, Repr

namespace Binary

/-- Whether `d / r` quarters of the last binary place lie among the reals that round to `x`: up to
halfway to either neighbour, the ends included when the mantissa is even. -/
def contains (x : Binary) (d r : Nat) : Bool :=
  let low := (4 * x.mantissa - if x.narrow then 1 else 2) * r
  let high := (4 * x.mantissa + 2) * r
  (low < d && d < high) || (x.mantissa % 2 == 0 && (low == d || d == high))

/-- Of the two multiples of `10 ^ g` beside `x`, one that still rounds to `x`: the nearer, and from
the middle the even one. -/
def onGrid? (x : Binary) (g : Int) : Option Nat :=
  let step := Nat.pow 10 g.toNat * Nat.pow 2 (2 - x.exponent).toNat
  let unit := Nat.pow 10 (-g).toNat * Nat.pow 2 (x.exponent - 2).toNat
  let down := 4 * x.mantissa * unit / step
  match x.contains (down * step) unit, x.contains ((down + 1) * step) unit with
  | false, false => none
  | true, false => some down
  | false, true => some (down + 1)
  | true, true =>
    match compare (8 * x.mantissa * unit) ((2 * down + 1) * step) with
    | .lt => some down
    | .gt => some (down + 1)
    | .eq => some (if down % 2 = 0 then down else down + 1)

def lessThanPowerOfTen (x : Binary) (k : Int) : Bool :=
  x.mantissa * Nat.pow 2 x.exponent.toNat * Nat.pow 10 (-k).toNat <
    Nat.pow 10 k.toNat * Nat.pow 2 (-x.exponent).toNat

/-- The least `k` with `x < 10 ^ k`, for `x` above zero. The binary logarithm gives it up to two
steps, and exact comparison settles those. -/
def magnitude (x : Binary) : Int :=
  let k := ((x.mantissa.log2 : Int) + x.exponent) * 30103 / 100000
  if x.lessThanPowerOfTen k then k
  else if x.lessThanPowerOfTen (k + 1) then k + 1 else k + 2

def dropZeros (digits : List Char) : List Char := (digits.reverse.dropWhile (· == '0')).reverse

/-- The coarsest grid with a multiple that rounds to `x` gives the digits. Seventeen of them tell
any two numbers apart; should they not, the exact value does. Zero has the digits `0`. -/
def shortest (x : Binary) : Decimal :=
  if x.mantissa = 0 then ⟨['0'], 1⟩
  else
    let k := x.magnitude
    let found := (List.range 17).findSome? fun (n : Nat) =>
      let g := k - (n + 1)
      (x.onGrid? g).map fun d => (d, g)
    match found with
    | some (d, g) =>
      let digits := Nat.toDigits 10 d
      ⟨dropZeros digits, g + digits.length⟩
    | none =>
      let scaled := x.mantissa * Nat.pow 2 x.exponent.toNat * Nat.pow 5 (-x.exponent).toNat
      let digits := Nat.toDigits 10 scaled
      ⟨dropZeros digits, digits.length - (-x.exponent).toNat⟩

end Binary
end Scriptlet

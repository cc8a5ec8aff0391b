import Scriptlet.Numeral.Shortest

/-! How numbers are written: positionally while the exponent is from -4 to 15, else with an exponent
of a sign and at least two digits. -/
namespace Scriptlet

/-- What the two written forms of a number differ in. -/
structure NumberStyle where
  /-- A whole number in positional form ends in `.0`. -/
  pointZero : Bool
  mark : Char

namespace NumberStyle

/-- How a program prints. -/
def printed : NumberStyle := ⟨false, 'E'⟩

/-- How a syntax tree is shown. -/
def shown : NumberStyle := ⟨true, 'e'⟩

def zeros (n : Nat) : List Char := List.replicate n '0'

def positional (style : NumberStyle) (x : Decimal) : List Char :=
  if x.point ≤ 0 then '0' :: '.' :: zeros (-x.point).toNat ++ x.digits
  else
    let n := x.point.toNat
    if x.digits.length ≤ n then
      x.digits ++ zeros (n - x.digits.length) ++ if style.pointZero then ['.', '0'] else []
    else x.digits.take n ++ '.' :: x.digits.drop n

def scientific (style : NumberStyle) (x : Decimal) : List Char :=
  let e := x.point - 1
  let size := Nat.toDigits 10 e.natAbs
  let whole := match x.digits with
    | d :: more@(_ :: _) => d :: '.' :: more
    | ds => ds
  whole ++ style.mark :: (if e < 0 then '-' else '+') :: zeros (2 - size.length) ++ size

def decimal (style : NumberStyle) (x : Decimal) : List Char :=
  if -4 < x.point ∧ x.point ≤ 16 then style.positional x else style.scientific x

def render (style : NumberStyle) (x : Float) : String :=
  if x.isNaN then "nan"
  else
    let size := if x.isInf then "inf".toList else style.decimal (Binary.ofFloat x).shortest
    String.ofList (if signed x then '-' :: size else size)

end NumberStyle
end Scriptlet

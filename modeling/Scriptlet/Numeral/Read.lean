import Scriptlet.Lexeme
import Scriptlet.Text.Property

/-! Reading a numeral: an optional sign, then digits with at most one point and an optional
exponent, or the word for infinity or for no number at all. Single underscores may stand between
digits, and blanks around the whole. -/
namespace Scriptlet

/-- The text without its underscores, each of which must stand between digits. -/
def joinDigits? (before : Char) : List Char → Option (List Char)
  | [] => some []
  | '_' :: c :: cs =>
    if isDigit before && isDigit c then (joinDigits? c cs).map (c :: ·) else none
  | c :: cs => if c = '_' then none else (joinDigits? c cs).map (c :: ·)

def natOfDigits (ds : List Char) : Nat := ds.foldl (fun n d => 10 * n + (d.toNat - '0'.toNat)) 0

/-- The exponent at the end of a numeral; there may be none. -/
def exponent? : List Char → Option Int
  | [] => some 0
  | mark :: cs =>
    if mark = 'e' ∨ mark = 'E' then
      let (negative, ds) := match cs with
        | '-' :: ds => (true, ds)
        | '+' :: ds => (false, ds)
        | ds => (false, ds)
      if ds ≠ [] ∧ ds.all isDigit then
        some (if negative then -(natOfDigits ds : Int) else natOfDigits ds)
      else none
    else none

/-- The number nearest to `0.ds * 10 ^ point`, with `ds` read after the point. Where the first digit
is four hundred places away the answer is known without its power of ten. -/
def nearest (ds : List Char) (point : Int) : Float :=
  let ds := ds.dropWhile (· == '0')
  if ds = [] ∨ point < -400 then 0.0
  else if 400 < point then 1.0 / 0.0
  else
    let e := point - ds.length
    Float.ofScientific (natOfDigits ds) (e < 0) e.natAbs

/-- A numeral without a sign that is not a word. -/
def decimal? (cs : List Char) : Option Float := do
  let whole := cs.takeWhile isDigit
  let (fraction, rest) := match cs.dropWhile isDigit with
    | '.' :: rest => (rest.takeWhile isDigit, rest.dropWhile isDigit)
    | rest => ([], rest)
  if whole = [] ∧ fraction = [] then none
  else
    let e ← exponent? rest
    let leading := (whole ++ fraction).takeWhile (· == '0')
    return nearest (whole ++ fraction) (whole.length - leading.length + e)

def magnitude? (cs : List Char) : Option Float :=
  match String.ofList (cs.map Char.toLower) with
  | "inf" | "infinity" => some (1.0 / 0.0)
  | "nan" => some (0.0 / 0.0)
  | _ => decimal? cs

/-- The number a lexeme stands for. -/
def readNumber? (lexeme : String) : Option Float := do
  let cs ← joinDigits? ' ' (Text.trim (lexeme.toList.map Text.narrow))
  match cs with
  | '-' :: cs => return -(← magnitude? cs)
  | '+' :: cs => magnitude? cs
  | cs => magnitude? cs

end Scriptlet

/-! Quoted text, as syntax trees are shown. -/
namespace Scriptlet.Text

/-- Two hexadecimal digits, for a code below 256. -/
def hexByte (n : Nat) : List Char := [Nat.digitChar (n / 16), Nat.digitChar (n % 16)]

/-- How one character stands between two `mark`s. -/
def escaped (mark c : Char) : List Char :=
  if c = '\\' then ['\\', '\\']
  else if c = mark then ['\\', mark]
  else if c = '\n' then ['\\', 'n']
  else if c = '\r' then ['\\', 'r']
  else if c = '\t' then ['\\', 't']
  else if c.toNat < 32 ∨ (127 ≤ c.toNat ∧ c.toNat < 161) ∨ c.toNat = 173 then
    '\\' :: 'x' :: hexByte c.toNat
  else [c]

/-- Single quotes, unless that would put a backslash where double quotes need none. -/
def quoteMark (cs : List Char) : Char := if '\'' ∈ cs ∧ '"' ∉ cs then '"' else '\''

def quoted (s : String) : String :=
  let mark := quoteMark s.toList
  String.ofList (mark :: s.toList.flatMap (escaped mark) ++ [mark])

end Scriptlet.Text

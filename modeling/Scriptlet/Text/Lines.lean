/-! Line ends. -/
namespace Scriptlet.Text

/-- A carriage return ends a line, alone or with the newline after it. -/
def unifyNewlines : List Char → List Char
  | '\r' :: '\n' :: cs => '\n' :: unifyNewlines cs
  | c :: cs => (if c = '\r' then '\n' else c) :: unifyNewlines cs
  | [] => []

/-- The lines that newlines end, then what follows the last newline unless it is empty. The line so
far is given backwards. -/
def linesFrom (line : List Char) : List Char → List String
  | [] => if line = [] then [] else [String.ofList line.reverse]
  | c :: cs =>
    if c = '\n' then String.ofList line.reverse :: linesFrom [] cs else linesFrom (c :: line) cs

def lines (text : String) : List String := linesFrom [] text.toList

end Scriptlet.Text

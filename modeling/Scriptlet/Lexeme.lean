import Scriptlet.Token

/-! The lexical grammar: how far a gap reaches at the front of a text, and which lexeme stands
there. Characters outside ASCII occur only in strings and comments. -/
namespace Scriptlet

def isDigit (c : Char) : Bool := '0' ≤ c && c ≤ '9'

def isLetter (c : Char) : Bool := ('a' ≤ c && c ≤ 'z') || ('A' ≤ c && c ≤ 'Z') || c == '_'

def isBlank (c : Char) : Bool := c == ' ' || c == '\r' || c == '\t' || c == '\n'

inductive LexicalError where
  | loneAmpersand | loneBar
  | unexpected (c : Char)
  | openString | openComment
deriving DecidableEq, Repr

def LexicalError.message : LexicalError → String
  | loneAmpersand => "'&' not supported. Did you mean '&&'?"
  | loneBar => "'|' not supported. Did you mean '||'?"
  | unexpected c => "Unexpected character '" ++ c.toString ++ "'."
  | openString => "Unterminated string."
  | openComment => "Unterminated block comment."

/-- The length of the text through the first `*/`, if it has one. -/
def closing? : List Char → Option Nat
  | '*' :: '/' :: _ => some 2
  | _ :: cs => (closing? cs).map (· + 1)
  | [] => none

/-- How much of the front is blanks, line comments and closed block comments. The newline that ends
a line comment counts as a blank of its own. -/
def gapLength : List Char → Nat
  | '/' :: '/' :: cs =>
    let n := (cs.takeWhile (· != '\n')).length
    2 + n + gapLength (cs.drop n)
  | '/' :: '*' :: cs =>
    match closing? cs with
    | some n => 2 + n + gapLength (cs.drop n)
    | none => 0
  | c :: cs => if isBlank c then 1 + gapLength cs else 0
  | [] => 0
termination_by cs => cs.length
decreasing_by all_goals simp; try omega

/-- What the front of a text is: a lexeme of some class, or an error, and how far it reaches. -/
inductive Munch where
  | token (kind : Kind) (length : Nat)
  | bad (cause : LexicalError) (length : Nat)
deriving DecidableEq, Repr

def Munch.length : Munch → Nat
  | token _ n | bad _ n => n

/-- Digits, then a point only if a digit follows it. -/
def numberLength (cs : List Char) : Nat :=
  let n := (cs.takeWhile isDigit).length
  match cs.drop n with
  | '.' :: d :: ds => if isDigit d then n + 1 + ((d :: ds).takeWhile isDigit).length else n
  | _ => n

def wordLength (cs : List Char) : Nat := (cs.takeWhile fun c => isLetter c || isDigit c).length

/-- The lexeme at the front of a text that starts with no gap. Where two lexemes fit, the longer one
is taken; an unclosed comment or string takes all that is left. -/
def munch : List Char → Munch
  | [] => .token .eof 0
  | '(' :: _ => .token .leftParen 1
  | ')' :: _ => .token .rightParen 1
  | '{' :: _ => .token .leftBrace 1
  | '}' :: _ => .token .rightBrace 1
  | ',' :: _ => .token .comma 1
  | ';' :: _ => .token .semicolon 1
  | ':' :: _ => .token .colon 1
  | '?' :: _ => .token .question 1
  | '+' :: _ => .token .plus 1
  | '-' :: _ => .token .minus 1
  | '*' :: _ => .token .star 1
  | '/' :: '*' :: cs => .bad .openComment (2 + cs.length)
  | '/' :: _ => .token .slash 1
  | '%' :: _ => .token .percent 1
  | '!' :: '=' :: _ => .token .bangEqual 2
  | '!' :: _ => .token .bang 1
  | '=' :: '=' :: _ => .token .equalEqual 2
  | '=' :: _ => .token .equal 1
  | '<' :: '=' :: _ => .token .lessEqual 2
  | '<' :: _ => .token .less 1
  | '>' :: '=' :: _ => .token .greaterEqual 2
  | '>' :: _ => .token .greater 1
  | '&' :: '&' :: _ => .token .and 2
  | '&' :: _ => .bad .loneAmpersand 1
  | '|' :: '|' :: _ => .token .or 2
  | '|' :: _ => .bad .loneBar 1
  | '"' :: cs =>
    let n := (cs.takeWhile (· != '"')).length
    if n < cs.length then .token .string (n + 2) else .bad .openString (n + 1)
  | c :: cs =>
    if isDigit c then .token .number (numberLength (c :: cs))
    else if isLetter c then
      let n := wordLength (c :: cs)
      .token (Kind.ofWord (String.ofList ((c :: cs).take n))) n
    else .bad (.unexpected c) 1

theorem numberLength_pos {c : Char} (cs : List Char) (h : isDigit c) :
    0 < numberLength (c :: cs) := by
  have : 0 < ((c :: cs).takeWhile isDigit).length := by simp [List.takeWhile, h]
  unfold numberLength
  grind

theorem wordLength_pos {c : Char} (cs : List Char) (h : isLetter c) :
    0 < wordLength (c :: cs) := by
  simp [wordLength, List.takeWhile, h]

theorem munch_length_pos {cs : List Char} (h : cs ≠ []) : 0 < (munch cs).length := by
  unfold munch
  split <;> grind [Munch.length, numberLength_pos, wordLength_pos]

end Scriptlet

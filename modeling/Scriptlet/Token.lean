/-! Tokens: what stands in a program text, and where. -/
namespace Scriptlet

/-- Lines and columns count from one, columns in code points. -/
structure Position where
  line : Nat
  column : Nat
deriving DecidableEq, Repr, Inhabited

namespace Position

def start : Position := ⟨1, 1⟩

/-- Where the next character stands when this one stands at `p`. -/
def after (p : Position) (c : Char) : Position :=
  if c = '\n' then ⟨p.line + 1, 1⟩ else ⟨p.line, p.column + 1⟩

def advance (p : Position) (text : List Char) : Position := text.foldl after p

@[simp] theorem advance_nil (p : Position) : p.advance [] = p := rfl

theorem advance_append (p : Position) (s t : List Char) :
    p.advance (s ++ t) = (p.advance s).advance t := List.foldl_append

end Position

/-- The classes of tokens. `other` names a class the language does not have; only a token that did
not come from a text can be in one. -/
inductive Kind where
  | leftParen | rightParen | leftBrace | rightBrace
  | comma | semicolon | colon | question
  | plus | minus | star | slash | percent
  | bang | bangEqual | equal | equalEqual | less | lessEqual | greater | greaterEqual
  | and | or
  | string | number | identifier
  | kwBreak | kwCase | kwContinue | kwDefault | kwDo | kwElse | kwFalse | kwFor | kwFunction
  | kwIf | kwNil | kwPrint | kwReturn | kwSwitch | kwTrue | kwVar | kwWhile
  | error | eof
  | other (name : String)
deriving DecidableEq, Repr, Inhabited

namespace Kind

def name : Kind → String
  | leftParen => "LEFT_PAREN" | rightParen => "RIGHT_PAREN"
  | leftBrace => "LEFT_BRACE" | rightBrace => "RIGHT_BRACE"
  | comma => "COMMA" | semicolon => "SEMICOLON" | colon => "COLON" | question => "QUESTION"
  | plus => "PLUS" | minus => "MINUS" | star => "STAR" | slash => "SLASH" | percent => "PERCENT"
  | bang => "BANG" | bangEqual => "BANG_EQUAL" | equal => "EQUAL" | equalEqual => "EQUAL_EQUAL"
  | less => "LESS" | lessEqual => "LESS_EQUAL"
  | greater => "GREATER" | greaterEqual => "GREATER_EQUAL"
  | and => "AND" | or => "OR"
  | string => "STRING" | number => "NUMBER" | identifier => "IDENTIFIER"
  | kwBreak => "BREAK" | kwCase => "CASE" | kwContinue => "CONTINUE" | kwDefault => "DEFAULT"
  | kwDo => "DO" | kwElse => "ELSE" | kwFalse => "FALSE" | kwFor => "FOR"
  | kwFunction => "FUNCTION" | kwIf => "IF" | kwNil => "NIL" | kwPrint => "PRINT"
  | kwReturn => "RETURN" | kwSwitch => "SWITCH" | kwTrue => "TRUE" | kwVar => "VAR"
  | kwWhile => "WHILE"
  | error => "ERROR" | eof => "EOF"
  | other name => name

/-- The classes of the language itself. -/
def known : List Kind :=
  [leftParen, rightParen, leftBrace, rightBrace, comma, semicolon, colon, question,
    plus, minus, star, slash, percent,
    bang, bangEqual, equal, equalEqual, less, lessEqual, greater, greaterEqual, and, or,
    string, number, identifier,
    kwBreak, kwCase, kwContinue, kwDefault, kwDo, kwElse, kwFalse, kwFor, kwFunction,
    kwIf, kwNil, kwPrint, kwReturn, kwSwitch, kwTrue, kwVar, kwWhile, error, eof]

def ofName (s : String) : Kind := (known.find? fun k => k.name == s).getD (other s)

theorem name_ofName (s : String) : (ofName s).name = s := by
  unfold ofName
  cases h : known.find? fun k => k.name == s with
  | none => rfl
  | some k => simpa using List.find?_some h

/-- The reserved words with their classes. -/
def keywords : List (String × Kind) :=
  [("break", kwBreak), ("case", kwCase), ("continue", kwContinue), ("default", kwDefault),
    ("do", kwDo), ("else", kwElse), ("false", kwFalse), ("for", kwFor),
    ("function", kwFunction), ("if", kwIf), ("nil", kwNil), ("print", kwPrint),
    ("return", kwReturn), ("switch", kwSwitch), ("true", kwTrue), ("var", kwVar),
    ("while", kwWhile)]

/-- A word is an identifier unless the whole of it is reserved. -/
def ofWord (word : String) : Kind := (keywords.lookup word).getD identifier

end Kind

/-- A piece of a program. The lexeme of an error token is its message. -/
structure Token where
  kind : Kind
  lexeme : String
  pos : Position
deriving DecidableEq, Repr, Inhabited

/-- The short form: class and lexeme. -/
def Token.describe (t : Token) : String := t.kind.name ++ " " ++ t.lexeme

end Scriptlet

import Scriptlet.Syntax

/-! What can be wrong with the syntax of a program, and how it is told. -/
namespace Scriptlet

/-- The places of the grammar where one class of token has to stand. -/
inductive Slot where
  | functionName | functionOpen | parameter | parametersClose | functionBody
  | varName | varEnd | printEnd | blockClose
  | ifOpen | ifClose
  | switchOpen | switchClose | switchBody | caseColon | defaultColon | switchEnd
  | whileOpen | whileClose
  | forOpen | forCondition | forClose
  | doWhile | doEnd
  | jumpEnd (jump : Jump)
  | returnEnd | expressionEnd
  | conditionalColon | argumentsClose | groupingClose
deriving DecidableEq, Repr

def Jump.word : Jump → String
  | exit => "break"
  | again => "continue"

namespace Slot

def kind : Slot → Kind
  | functionName | parameter | varName => .identifier
  | functionOpen | ifOpen | switchOpen | whileOpen | forOpen => .leftParen
  | parametersClose | ifClose | switchClose | whileClose | forClose
  | argumentsClose | groupingClose => .rightParen
  | functionBody | switchBody => .leftBrace
  | blockClose | switchEnd => .rightBrace
  | varEnd | printEnd | forCondition | doEnd | jumpEnd _ | returnEnd | expressionEnd => .semicolon
  | caseColon | defaultColon | conditionalColon => .colon
  | doWhile => .kwWhile

def message : Slot → String
  | functionName => "Expect function name."
  | functionOpen => "Expect '(' after function name."
  | parameter => "Expect parameter name."
  | parametersClose => "Expect ')' after parameters."
  | functionBody => "Expect '\x7b' before function body."
  | varName => "Expected variable name."
  | varEnd => "Expect ';' after variable declaration."
  | printEnd => "Expect ';' after print expression."
  | blockClose => "Expect '\x7d' at end of block."
  | ifOpen => "Expect '(' after 'if'."
  | ifClose => "Expect ')' after 'if' condition."
  | switchOpen => "Expect '(' after 'switch'."
  | switchClose => "Expect ')' after 'switch' expression."
  | switchBody => "Expect '\x7b' at start of 'switch' body."
  | caseColon => "Expect ':' after 'case' expression."
  | defaultColon => "Expect ':' after 'default'."
  | switchEnd => "Expect '\x7d' at end of 'switch' body."
  | whileOpen => "Expect '(' after 'while'."
  | whileClose => "Expect ')' after 'while' condition."
  | forOpen => "Expect '(' after 'for'."
  | forCondition => "Expect ';' after 'for' condition."
  | forClose => "Expect ')' after 'for' clauses."
  | doWhile => "Expect 'while' after 'do' body."
  | doEnd => "Expect ';' after 'do-while' condition."
  | jumpEnd j => "Expect ';' after '" ++ j.word ++ "'."
  | returnEnd => "Expect ';' at end of 'return' statement."
  | expressionEnd => "Expect ';' after previous expression."
  | conditionalColon => "Expect ':' after truthy branch of conditional."
  | argumentsClose => "Expect ')' after arguments."
  | groupingClose => "Expected ')' after previous expression."

end Slot

/-- The most arguments a call, and parameters a function, may have. -/
def maxArguments : Nat := 255

/-- How deep statements may stand in statements. -/
def maxNesting : Nat := 255

inductive SyntaxError where
  | expected (slot : Slot)
  | noExpression
  | lexical (message : String)
  | assignmentTarget
  | strayJump (jump : Jump)
  | tooManyParameters | tooManyArguments
  | tooDeep
deriving DecidableEq, Repr

/-- A jump outside of every loop is told alike whoever finds it. -/
def Jump.strayMessage (j : Jump) : String := "Must be inside a loop to " ++ j.word ++ "."

def SyntaxError.message : SyntaxError → String
  | expected slot => slot.message
  | noExpression => "Expected expression."
  | lexical message => message
  | assignmentTarget => "Invalid assignment target."
  | strayJump j => j.strayMessage
  | tooManyParameters => "Exceeded maximum of " ++ toString maxArguments ++ " parameters."
  | tooManyArguments => "Exceeded maximum of " ++ toString maxArguments ++ " arguments."
  | tooDeep => "Too much nesting."

/-- An error and the token it is attributed to. One that was met before the parser had recovered
from the error before it is taken for an echo of that, and the user is not told. -/
structure Diagnostic where
  token : Token
  cause : SyntaxError
  echo : Bool
deriving DecidableEq, Repr

namespace Diagnostic

/-- How the token is named; a lexical error needs no name, its message has all. -/
def place (t : Token) : String :=
  match t.kind with
  | .error => ""
  | .eof => " at end"
  | _ => " at '" ++ t.lexeme ++ "'"

def line (d : Diagnostic) : String :=
  "[Line " ++ toString d.token.pos.line ++ ", Col " ++ toString d.token.pos.column ++ "] Error" ++
    place d.token ++ ": " ++ d.cause.message

/-- What the user is told. -/
def told (reports : List Diagnostic) : List Diagnostic := reports.filter fun d => !d.echo

/-- One diagnostic a line. -/
def text (reports : List Diagnostic) : String :=
  String.join ((told reports).map fun d => d.line ++ "\n")

end Diagnostic
end Scriptlet

import Scriptlet.Parse.Expression

/-! The grammar of statements and declarations. -/
namespace Scriptlet.Parse

/-- Where a statement stands: in a loop of the same function, in a block, and how deep; and the room
there is for the rules of an expression. -/
structure Context where
  inLoop : Bool
  inBlock : Bool
  depth : Nat
  room : Nat
deriving DecidableEq, Repr

namespace Context

def top (room : Nat) : Context := ⟨false, false, 0, room⟩

def deeper (c : Context) : Context := { c with depth := c.depth + 1 }

def loop (c : Context) : Context := { c with inLoop := true }

def block (c : Context) : Context := { c with inBlock := true }

/-- Loops around a function do not extend into its body. -/
def function (c : Context) : Context := { c.deeper with inLoop := false }

end Context

def guardDepth (c : Context) : Parser Unit :=
  if maxNesting < c.depth then halt .nesting else pure ()

/-- One parameter or more, when `count` stand before them. -/
def parameters : Nat → Nat → Parser (List Token)
  | 0, _ => halt .outOfFuel
  | n + 1, count => do
    if maxArguments ≤ count then reportHere .tooManyParameters
    let first ← expect .parameter
    match ← accept [.comma] with
    | some _ => return first :: (← parameters n (count + 1))
    | none => return [first]

def varDeclaration (n room : Nat) : Parser (Stmt Unit) := do
  let name ← expect .varName
  let init ← match ← accept [.equal] with
    | some _ => some <$> expr n room .comma
    | none => pure none
  let _ ← expect .varEnd
  return .var name init

def expressionStatement (n room : Nat) : Parser (Stmt Unit) := do
  let value ← expr n room .comma
  let _ ← expect .expressionEnd
  return .expression value

def printStatement (n room : Nat) : Parser (Stmt Unit) := do
  let value ← expr n room .comma
  let _ ← expect .printEnd
  return .print value

def returnStatement (n room : Nat) (keyword : Token) : Parser (Stmt Unit) := do
  let value ← if ← check .semicolon then pure none else some <$> expr n room .comma
  let _ ← expect .returnEnd
  return .give keyword value

def jumpStatement (c : Context) (j : Jump) (keyword : Token) : Parser (Stmt Unit) := do
  if !c.inLoop then report keyword (.strayJump j)
  let _ ← expect (.jumpEnd j)
  return .jump j keyword

/-- An expression in the parentheses that the slots stand for. -/
def parenthesized (n room : Nat) (left right : Slot) : Parser (Expr Unit) := do
  let _ ← expect left
  let inner ← expr n room .comma
  let _ ← expect right
  return inner

/-- The parts of a `for` loop before its body. -/
structure ForHead where
  init : Option (Stmt Unit)
  condition : Expr Unit
  step : Option (Expr Unit)

def forHead (n room : Nat) : Parser ForHead := do
  let _ ← expect .forOpen
  let init ← match ← peek with
    | .kwVar => do
      let _ ← advance
      some <$> varDeclaration n room
    | .semicolon => do
      let _ ← advance
      pure none
    | _ => some <$> expressionStatement n room
  let condition ← if ← check .semicolon then pure (.literal (.bool true)) else expr n room .comma
  let _ ← expect .forCondition
  let step ← if ← check .rightParen then pure none else some <$> expr n room .comma
  let _ ← expect .forClose
  return ⟨init, condition, step⟩

/-- A `for` loop is a loop with a step, in a block of its own if it declares or computes something
first. -/
def ForHead.loop (head : ForHead) (body : Stmt Unit) : Stmt Unit :=
  let loop := match head.step with
    | some e => .loopStep head.condition body (.expression e)
    | none => .loop head.condition body
  match head.init with
  | some init => .block [init, loop]
  | none => loop

mutual

/-- A declaration or statement of a list; nothing, if it had to be given up. -/
def declaration : Nat → Context → Parser (Option (Stmt Unit))
  | 0, _ => halt .outOfFuel
  | n + 1, c => recovering c.inBlock do
    match ← peek with
    | .kwFunction =>
      let _ ← advance
      function n c
    | .kwVar =>
      let _ ← advance
      varDeclaration n c.room
    | _ => statement n c

def function : Nat → Context → Parser (Stmt Unit)
  | 0, _ => halt .outOfFuel
  | n + 1, c => do
    let name ← expect .functionName
    let _ ← expect .functionOpen
    let params ← if ← check .rightParen then pure [] else parameters n 0
    let _ ← expect .parametersClose
    let _ ← expect .functionBody
    guardDepth c.function
    return .function name params (← block n c.function)

def statement : Nat → Context → Parser (Stmt Unit)
  | 0, _ => halt .outOfFuel
  | n + 1, outer => do
    let c := outer.deeper
    guardDepth c
    match ← peek with
    | .kwPrint =>
      let _ ← advance
      printStatement n c.room
    | .leftBrace =>
      let _ ← advance
      return .block (← block n c)
    | .kwIf =>
      let _ ← advance
      let condition ← parenthesized n c.room .ifOpen .ifClose
      let thenBranch ← statement n c
      match ← accept [.kwElse] with
      | some _ => return .ifElse condition thenBranch (← statement n c)
      | none => return .ifThen condition thenBranch
    | .kwSwitch =>
      let _ ← advance
      let subject ← parenthesized n c.room .switchOpen .switchClose
      let _ ← expect .switchBody
      let arms ← arms n c
      let _ ← expect .switchEnd
      return .switch subject arms
    | .kwWhile =>
      let _ ← advance
      let condition ← parenthesized n c.room .whileOpen .whileClose
      return .loop condition (← statement n c.loop)
    | .kwFor =>
      let _ ← advance
      let head ← forHead n c.room
      return head.loop (← statement n c.loop)
    | .kwDo =>
      let _ ← advance
      let body ← statement n c.loop
      let _ ← expect .doWhile
      let condition ← parenthesized n c.room .whileOpen .whileClose
      let _ ← expect .doEnd
      return .doLoop body condition
    | .kwBreak => jumpStatement c .exit (← advance)
    | .kwContinue => jumpStatement c .again (← advance)
    | .kwReturn => returnStatement n c.room (← advance)
    | _ => expressionStatement n c.room

/-- What follows an opening brace, through the closing one. -/
def block : Nat → Context → Parser (List (Stmt Unit))
  | 0, _ => halt .outOfFuel
  | n + 1, c => do
    let body ← items n c.block
    let _ ← expect .blockClose
    return body

/-- The declarations before a closing brace or the end. -/
def items : Nat → Context → Parser (List (Stmt Unit))
  | 0, _ => halt .outOfFuel
  | n + 1, c => do
    match ← peek with
    | .rightBrace | .eof => return []
    | _ =>
      let first ← declaration n c
      let rest ← items n c
      return first.toList ++ rest

/-- The arms of a switch. -/
def arms : Nat → Context → Parser (Arms Unit)
  | 0, _ => halt .outOfFuel
  | n + 1, c => do
    match ← peek with
    | .kwCase =>
      let _ ← advance
      let condition ← expr n c.room .comma
      let _ ← expect .caseColon
      let body ← statement n c
      return .case condition body (← arms n c)
    | .kwDefault =>
      let _ ← advance
      let _ ← expect .defaultColon
      return .otherwise (← statement n c)
    | _ => return .done

end

end Scriptlet.Parse

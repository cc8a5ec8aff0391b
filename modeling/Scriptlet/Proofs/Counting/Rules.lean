import Scriptlet.Proofs.Counting.Walk

/-! The grammar of declarations and statements by the rules of a parser that counts. -/
namespace Scriptlet.Parse.Walk

mutual

def declaration : Nat → Nat → Walk (Option (Stmt Unit))
  | 0, _ => halt .outOfFuel
  | n + 1, room => recovering do
    match ← peek with
    | .kwFunction =>
      let _ ← advance
      function n room
    | .kwVar =>
      let _ ← advance
      lift (varDeclaration n room) (elementary_varDeclaration n)
    | _ => statement n room
termination_by structural fuel => fuel

def function : Nat → Nat → Walk (Stmt Unit)
  | 0, _ => halt .outOfFuel
  | n + 1, room => do
    let name ← expect .functionName
    let _ ← expect .functionOpen
    let params ← lift (parameterList n) (.unlessAt (elementary_parameters n 0))
    let _ ← expect .parametersClose
    let _ ← expect .functionBody
    let body ← within .function do
      guardDepth
      block n room
    return .function name params body
termination_by structural fuel => fuel

def statement : Nat → Nat → Walk (Stmt Unit)
  | 0, _ => halt .outOfFuel
  | n + 1, room => within .statement do
    guardDepth
    match ← peek with
    | .kwPrint =>
      let _ ← advance
      lift (printStatement n room) (elementary_printStatement n)
    | .leftBrace =>
      let _ ← advance
      return .block (← block n room)
    | .kwIf =>
      let _ ← advance
      let condition ← lift (parenthesized n room .ifOpen .ifClose) (elementary_parenthesized ..)
      let thenBranch ← statement n room
      match ← accept [.kwElse] with
      | some _ => return .ifElse condition thenBranch (← statement n room)
      | none => return .ifThen condition thenBranch
    | .kwSwitch =>
      let _ ← advance
      let subject ← lift (parenthesized n room .switchOpen .switchClose)
        (elementary_parenthesized ..)
      let _ ← expect .switchBody
      let arms ← arms n room
      let _ ← expect .switchEnd
      return .switch subject arms
    | .kwWhile =>
      let _ ← advance
      let condition ← lift (parenthesized n room .whileOpen .whileClose)
        (elementary_parenthesized ..)
      return .loop condition (← within .loop (statement n room))
    | .kwFor =>
      let _ ← advance
      let head ← lift (forHead n room) (elementary_forHead n)
      return head.loop (← within .loop (statement n room))
    | .kwDo =>
      let _ ← advance
      let body ← within .loop (statement n room)
      let _ ← expect .doWhile
      let condition ← lift (parenthesized n room .whileOpen .whileClose)
        (elementary_parenthesized ..)
      let _ ← expect .doEnd
      return .doLoop body condition
    | .kwBreak => jumpStatement .exit (← advance)
    | .kwContinue => jumpStatement .again (← advance)
    | .kwReturn =>
      let keyword ← advance
      lift (returnStatement n room keyword) (elementary_returnStatement n keyword)
    | _ => lift (expressionStatement n room) (elementary_expressionStatement n)
termination_by structural fuel => fuel

def block : Nat → Nat → Walk (List (Stmt Unit))
  | 0, _ => halt .outOfFuel
  | n + 1, room => within .block do
    let body ← items n room
    let _ ← expect .blockClose
    return body
termination_by structural fuel => fuel

def items : Nat → Nat → Walk (List (Stmt Unit))
  | 0, _ => halt .outOfFuel
  | n + 1, room => do
    match ← peek with
    | .rightBrace | .eof => return []
    | _ =>
      let first ← recorded (declaration n room)
      let rest ← items n room
      return first.toList ++ rest
termination_by structural fuel => fuel

def arms : Nat → Nat → Walk (Arms Unit)
  | 0, _ => halt .outOfFuel
  | n + 1, room => do
    match ← peek with
    | .kwCase =>
      let _ ← advance
      let condition ← lift (expr n room .comma) (elementary_expr n .comma)
      let _ ← expect .caseColon
      let body ← statement n room
      return .case condition body (← arms n room)
    | .kwDefault =>
      let _ ← advance
      let _ ← expect .defaultColon
      return .otherwise (← statement n room)
    | _ => return .done
termination_by structural fuel => fuel

end

end Scriptlet.Parse.Walk

namespace Scriptlet.Parse

/-- What a parser that counts has of a program in the end: the statements, the jump statements in
them, and how it ended; and where the parser is then. -/
structure Record where
  statements : List (Stmt Unit)
  jumps : List Site
  ending : Ending
  last : Walker

namespace Walker

/-- The declarations through `eof`, as far as they go. -/
def program : Nat → Nat → Walker → Record
  | 0, _, w => ⟨[], [], .halted .outOfFuel w.state, w⟩
  | n + 1, room, w =>
    if w.state.atEnd then ⟨[], [], .done w.state, w⟩
    else match (Walk.recorded (Walk.declaration n room)).run w with
      | .ok d jumps w =>
        let rest := program n room w
        ⟨d.toList ++ rest.statements, jumps ++ rest.jumps, rest.ending, rest.last⟩
      | .bad w => ⟨[], [], .done w.state, w⟩
      | .halt cause w => ⟨[], [], .halted cause w.state, w⟩

def start (s : State) : Walker := ⟨s, .zero, []⟩

end Walker

/-- The record of a program, unless there is no token but errors. -/
def record? (room : Nat) (tokens : List Token) : Option Record :=
  (State.start? tokens).map fun s =>
    Walker.program (rulesPerToken * (tokens.length + 2)) (operandRules + room) (.start s)

end Scriptlet.Parse

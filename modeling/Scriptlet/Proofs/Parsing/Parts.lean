import Scriptlet.Parse.Program

/-! The optional parts of the grammar functions as parsers of their own, so that each function is a
plain sequence of steps. -/
namespace Scriptlet.Parse

variable {α β : Type} {n room : Nat}

instance : LawfulMonad Parser := LawfulMonad.mk' Parser
  (fun p => by
    funext s
    change Parser.bind p (fun a => Parser.pure a) s = p s
    unfold Parser.bind
    cases p s <;> rfl)
  (fun _ _ => rfl)
  (fun p f g => by
    funext s
    change Parser.bind (Parser.bind p f) g s = Parser.bind p (fun a => Parser.bind (f a) g) s
    unfold Parser.bind
    cases p s <;> rfl)

theorem peek_bind (f : Kind → Parser β) (s : State) : (peek >>= f) s = f s.current.kind s := rfl

/-- Nothing is there if the current token is of the kind that has to follow. -/
def unlessAt (stop : Kind) (absent : α) (p : Parser α) : Parser α := do
  if ← check stop then return absent else p

theorem unlessAt_bind {stop : Kind} {absent : α} {p : Parser α} {f : α → Parser β} :
    unlessAt stop absent p >>= f =
      check stop >>= fun b => if b then pure absent >>= f else p >>= f := by
  unfold unlessAt
  rw [bind_assoc]
  congr 1
  funext b
  cases b <;> rfl

def argumentList (n room : Nat) : Parser (List (Expr Unit)) :=
  unlessAt .rightParen [] (arguments n room 0)

def parameterList (n : Nat) : Parser (List Token) := unlessAt .rightParen [] (parameters n 0)

def initializer (n room : Nat) : Parser (Option (Expr Unit)) := do
  match ← accept [.equal] with
  | some _ => some <$> expr n room .comma
  | none => return none

def forInit (n room : Nat) : Parser (Option (Stmt Unit)) := do
  match ← peek with
  | .kwVar => do
    let _ ← advance
    some <$> varDeclaration n room
  | .semicolon => do
    let _ ← advance
    return none
  | _ => some <$> expressionStatement n room

/-- A declaration or statement that passes its errors on. -/
def unrecovered (n : Nat) (c : Context) : Parser (Stmt Unit) := do
  match ← peek with
  | .kwFunction =>
    let _ ← advance
    function n c
  | .kwVar =>
    let _ ← advance
    varDeclaration n c.room
  | _ => statement n c

def blockStatement (n : Nat) (c : Context) : Parser (Stmt Unit) := do
  return .block (← block n c)

def ifStatement (n : Nat) (c : Context) : Parser (Stmt Unit) := do
  let condition ← parenthesized n c.room .ifOpen .ifClose
  let thenBranch ← statement n c
  match ← accept [.kwElse] with
  | some _ => return .ifElse condition thenBranch (← statement n c)
  | none => return .ifThen condition thenBranch

def switchStatement (n : Nat) (c : Context) : Parser (Stmt Unit) := do
  let subject ← parenthesized n c.room .switchOpen .switchClose
  let _ ← expect .switchBody
  let arms ← arms n c
  let _ ← expect .switchEnd
  return .switch subject arms

def whileStatement (n : Nat) (c : Context) : Parser (Stmt Unit) := do
  let condition ← parenthesized n c.room .whileOpen .whileClose
  return .loop condition (← statement n c.loop)

def forStatement (n : Nat) (c : Context) : Parser (Stmt Unit) := do
  let head ← forHead n c.room
  return head.loop (← statement n c.loop)

def doStatement (n : Nat) (c : Context) : Parser (Stmt Unit) := do
  let body ← statement n c.loop
  let _ ← expect .doWhile
  let condition ← parenthesized n c.room .whileOpen .whileClose
  let _ ← expect .doEnd
  return .doLoop body condition

/-- A statement, told by its first token, whose keyword is passed before the rest of it. -/
def form (n : Nat) (c : Context) : Parser (Stmt Unit) := do
  match ← peek with
  | .kwPrint =>
    let _ ← advance
    printStatement n c.room
  | .leftBrace =>
    let _ ← advance
    blockStatement n c
  | .kwIf =>
    let _ ← advance
    ifStatement n c
  | .kwSwitch =>
    let _ ← advance
    switchStatement n c
  | .kwWhile =>
    let _ ← advance
    whileStatement n c
  | .kwFor =>
    let _ ← advance
    forStatement n c
  | .kwDo =>
    let _ ← advance
    doStatement n c
  | .kwBreak => jumpStatement c .exit (← advance)
  | .kwContinue => jumpStatement c .again (← advance)
  | .kwReturn => returnStatement n c.room (← advance)
  | _ => expressionStatement n c.room

/-- The report, if there is cause for it. -/
def complainIf (bad : Bool) (complaint : Parser Unit) : Parser Unit :=
  if bad then complaint else pure ()

theorem calls_succ (callee : Expr Unit) :
    calls (n + 1) room callee = (do
      match ← accept [.leftParen] with
      | none => return callee
      | some _ =>
        let args ← argumentList n room
        let paren ← expect .argumentsClose
        calls n room (.call callee paren args)) := by
  rw [calls]
  congr 1
  funext o
  cases o with
  | none => rfl
  | some _ => exact unlessAt_bind.symm

theorem arguments_succ (count : Nat) :
    arguments (n + 1) room count = do
      complainIf (maxArguments ≤ count) (reportHere .tooManyArguments)
      let first ← expr n room .assignment
      match ← accept [.comma] with
      | some _ => return first :: (← arguments n room (count + 1))
      | none => return [first] := by
  rw [arguments, complainIf]
  by_cases h : maxArguments ≤ count <;> simp only [h, decide_true, decide_false] <;> rfl

theorem parameters_succ (count : Nat) :
    parameters (n + 1) count = do
      complainIf (maxArguments ≤ count) (reportHere .tooManyParameters)
      let first ← expect .parameter
      match ← accept [.comma] with
      | some _ => return first :: (← parameters n (count + 1))
      | none => return [first] := by
  rw [parameters, complainIf]
  by_cases h : maxArguments ≤ count <;> simp only [h, decide_true, decide_false] <;> rfl

theorem varDeclaration_eq :
    varDeclaration n room = do
      let name ← expect .varName
      let init ← initializer n room
      let _ ← expect .varEnd
      return .var name init := by
  unfold varDeclaration initializer
  congr 1
  funext name
  rw [bind_assoc]
  congr 1
  funext o
  cases o <;> rfl

theorem returnStatement_eq (keyword : Token) :
    returnStatement n room keyword = do
      let value ← unlessAt .semicolon none (some <$> expr n room .comma)
      let _ ← expect .returnEnd
      return .give keyword value :=
  unlessAt_bind.symm

theorem jumpStatement_eq (c : Context) (j : Jump) (keyword : Token) :
    jumpStatement c j keyword = do
      complainIf (!c.inLoop) (report keyword (.strayJump j))
      let _ ← expect (.jumpEnd j)
      return .jump j keyword := by
  unfold jumpStatement complainIf
  cases c.inLoop <;> rfl

theorem forHead_eq :
    forHead n room = do
      let _ ← expect .forOpen
      let init ← forInit n room
      let condition ← unlessAt .semicolon (.literal (.bool true)) (expr n room .comma)
      let _ ← expect .forCondition
      let step ← unlessAt .rightParen none (some <$> expr n room .comma)
      let _ ← expect .forClose
      return ⟨init, condition, step⟩ := by
  unfold forHead forInit
  congr 1
  funext left
  rw [bind_assoc]
  congr 1
  funext k
  simp only [unlessAt_bind]
  split <;> simp_all only [bind_assoc, pure_bind]

theorem declaration_succ (c : Context) :
    declaration (n + 1) c = recovering c.inBlock (unrecovered n c) := by
  rw [declaration]
  rfl

theorem statement_succ (outer : Context) :
    statement (n + 1) outer = guardDepth outer.deeper >>= fun _ => form n outer.deeper := by
  rw [statement]
  rfl

theorem function_succ (c : Context) :
    function (n + 1) c = do
      let name ← expect .functionName
      let _ ← expect .functionOpen
      let params ← parameterList n
      let _ ← expect .parametersClose
      let _ ← expect .functionBody
      guardDepth c.function
      return .function name params (← block n c.function) := by
  unfold function parameterList
  simp only [unlessAt_bind]

end Scriptlet.Parse

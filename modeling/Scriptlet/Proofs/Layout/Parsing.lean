import Scriptlet.Proofs.Layout.Moved
import Scriptlet.Proofs.Parsing.Parts

/-! Parsing goes by the kinds and the lexemes of the tokens, never by where they stand. -/
namespace Scriptlet.Parse

variable {α β γ δ : Type} {l : Layout}

def State.moved (l : Layout) (s : State) : State :=
  ⟨s.current.moved l, s.rest.map (Token.moved l), s.panicking, s.reports.map (Diagnostic.moved l)⟩

/-- The values move as their sort of value does. -/
def Result.moved (l : Layout) (φ : α → β) : Result α → Result β
  | .ok a s => .ok (φ a) (s.moved l)
  | .bad s => .bad (s.moved l)
  | .halt cause s => .halt cause (s.moved l)

/-- On moved tokens the second parser does what the first one does, moved. -/
def Carries (l : Layout) (φ : α → β) (p : Parser α) (q : Parser β) : Prop :=
  ∀ s, q (s.moved l) = (p s).moved l φ

namespace State

variable {s : State}

theorem report_moved (t : Token) (cause : SyntaxError) :
    (s.moved l).report (t.moved l) cause = (s.report t cause).moved l := by
  simp [report, moved, Diagnostic.moved]

theorem pullFrom_moved (s : State) (ts : List Token) :
    (s.moved l).pullFrom (ts.map (Token.moved l)) = (s.pullFrom ts).map (State.moved l) := by
  induction ts generalizing s with
  | nil => rfl
  | cons t ts ih =>
    rw [List.map_cons, pullFrom, pullFrom, Token.kind_moved]
    split
    · have hcalm : (s.moved l).calm = s.calm.moved l := rfl
      rw [Token.lexeme_moved, hcalm, report_moved, ih]
    · rfl

theorem pull_moved (s : State) : (s.moved l).pull = s.pull.map (State.moved l) :=
  pullFrom_moved s s.rest

theorem recover_moved (s : State) (inBlock : Bool) (depth : Nat) :
    (s.moved l).recover inBlock depth = (s.recover inBlock depth).map (State.moved l) := by
  fun_induction recover s inBlock depth with
  | case1 s depth hlanding =>
    have hmoved : landing inBlock (s.moved l).current.kind depth = .here := hlanding
    rw [recover, hmoved]
    rfl
  | case2 s depth hlanding =>
    have hmoved : landing inBlock (s.moved l).current.kind depth = .past := hlanding
    rw [recover, hmoved]
    exact pull_moved s
  | case3 s depth depth' hlanding hpull =>
    have hmoved : landing inBlock (s.moved l).current.kind depth = .onward depth' := hlanding
    have hnone : (s.moved l).pull = none := by rw [pull_moved, hpull]; rfl
    rw [recover, hmoved]
    dsimp only
    split
    next => rfl
    next r hr => rw [hnone] at hr; cases hr
  | case4 s depth depth' hlanding r hpull ih =>
    have hmoved : landing inBlock (s.moved l).current.kind depth = .onward depth' := hlanding
    have hsome : (s.moved l).pull = some (r.moved l) := by rw [pull_moved, hpull]; rfl
    rw [recover, hmoved]
    dsimp only
    split
    next hr => rw [hsome] at hr; cases hr
    next u hu =>
      obtain rfl := Option.some.inj (hsome.symm.trans hu)
      exact ih

end State

namespace Carries

theorem pure {φ : α → β} (a : α) : Carries l φ (pure a) (pure (φ a)) := fun _ => rfl

theorem bind {φ : α → β} {ψ : γ → δ} {p : Parser α} {q : Parser β} {f : α → Parser γ}
    {g : β → Parser δ} (hp : Carries l φ p q) (hf : ∀ a, Carries l ψ (f a) (g (φ a))) :
    Carries l ψ (p >>= f) (q >>= g) := by
  intro s
  change Parser.bind q g (s.moved l) = (Parser.bind p f s).moved l ψ
  unfold Parser.bind
  rw [hp s]
  cases p s with
  | ok a r => exact hf a r
  | bad r => rfl
  | halt cause r => rfl

theorem map {φ : α → β} {ψ : γ → δ} {p : Parser α} {q : Parser β} {f : α → γ} {g : β → δ}
    (hp : Carries l φ p q) (hf : ∀ a, g (φ a) = ψ (f a)) : Carries l ψ (f <$> p) (g <$> q) := by
  rw [map_eq_pure_bind, map_eq_pure_bind]
  refine hp.bind fun a => ?_
  rw [hf]
  exact pure (f a)

theorem halt {φ : α → β} (cause : Halt) : Carries l φ (halt cause) (halt cause) := fun _ => rfl

theorem peek : Carries l id peek peek := fun _ => rfl

theorem check (kind : Kind) : Carries l id (check kind) (check kind) := fun _ => rfl

theorem advance : Carries l (Token.moved l) advance advance := by
  intro s
  unfold Parse.advance
  have hend : (s.moved l).atEnd = s.atEnd := rfl
  rw [hend, State.pull_moved]
  cases s.atEnd with
  | true => rfl
  | false => cases s.pull <;> rfl

theorem report (t : Token) (cause : SyntaxError) :
    Carries l id (report t cause) (report (t.moved l) cause) :=
  fun _ => congrArg (Result.ok ()) (State.report_moved t cause)

theorem reportHere (cause : SyntaxError) : Carries l id (reportHere cause) (reportHere cause) :=
  fun s => congrArg (Result.ok ()) (State.report_moved s.current cause)

theorem fail {φ : α → β} (cause : SyntaxError) : Carries l φ (fail cause) (fail cause) :=
  fun s => congrArg Result.bad (State.report_moved s.current cause)

theorem accept (kinds : List Kind) :
    Carries l (Option.map (Token.moved l)) (accept kinds) (accept kinds) := by
  refine peek.bind fun k => ?_
  dsimp only [id]
  split
  · exact advance.bind fun t => pure (some t)
  · exact pure none

theorem expect (slot : Slot) : Carries l (Token.moved l) (expect slot) (expect slot) := by
  refine (check _).bind fun b => ?_
  cases b with
  | true => exact advance
  | false => exact fail _

theorem recovering {inBlock : Bool} {φ : α → β} {p : Parser α} {q : Parser β}
    (hp : Carries l φ p q) :
    Carries l (Option.map φ) (recovering inBlock p) (recovering inBlock q) := by
  intro s
  have hcalm : (s.moved l).calm = s.calm.moved l := rfl
  unfold Parse.recovering
  rw [hcalm, hp s.calm]
  cases p s.calm with
  | ok a r => rfl
  | halt cause r => rfl
  | bad r =>
    simp only [Result.moved]
    rw [State.recover_moved]
    cases r.recover inBlock 0 <;> rfl

theorem unlessAt {stop : Kind} {φ : α → β} {absent : α} {p : Parser α} {q : Parser β}
    (hp : Carries l φ p q) : Carries l φ (unlessAt stop absent p) (unlessAt stop (φ absent) q) := by
  refine (check stop).bind fun b => ?_
  cases b with
  | true => exact pure absent
  | false => exact hp

theorem complainIf (bad : Bool) {p q : Parser Unit} (hp : Carries l id p q) :
    Carries l id (complainIf bad p) (complainIf bad q) := by
  cases bad with
  | true => exact hp
  | false => exact pure ()

theorem literal (value : Literal) : Carries l (Expr.moved l) (literal value) (literal value) :=
  advance.bind fun _ => pure _

theorem numberLiteral : Carries l (Expr.moved l) numberLiteral numberLiteral := by
  refine advance.bind fun t => ?_
  rw [Token.lexeme_moved]
  cases readNumber? t.lexeme with
  | none => exact halt _
  | some x => exact pure _

theorem stringLiteral : Carries l (Expr.moved l) stringLiteral stringLiteral :=
  advance.bind fun _ => pure _

theorem guardDepth (c : Context) : Carries l id (guardDepth c) (guardDepth c) := by
  unfold Parse.guardDepth
  split
  · exact halt _
  · exact pure ()

end Carries

/-- The grammar functions of expressions with this much fuel. -/
structure CarryingExpr (l : Layout) (n : Nat) : Prop where
  expr {room : Nat} (level : Level) :
    Carries l (Expr.moved l) (expr n room level) (expr n room level)
  operands {room : Nat} (level : Level) (left : Expr Unit) :
    Carries l (Expr.moved l) (operands n room level left) (operands n room level (left.moved l))
  calls {room : Nat} (callee : Expr Unit) :
    Carries l (Expr.moved l) (calls n room callee) (calls n room (callee.moved l))
  arguments {room : Nat} (count : Nat) :
    Carries l (Expr.movedAll l) (arguments n room count) (arguments n room count)

variable {n room : Nat}

theorem carrying_primary (ih : CarryingExpr l n) :
    Carries l (Expr.moved l) (expr (n + 1) (room + 1) .primary)
      (expr (n + 1) (room + 1) .primary) := by
  rw [expr]
  refine Carries.peek.bind fun k => ?_
  dsimp only [id]
  split
  · exact .literal _
  · exact .literal _
  · exact .literal _
  · exact .numberLiteral
  · exact .stringLiteral
  · exact Carries.advance.bind fun _ => (ih.expr _).bind fun _ => (Carries.expect _).bind fun _ =>
      .pure _
  · exact Carries.advance.bind fun _ => .pure _
  · exact .fail _

theorem carrying_assignment (ih : CarryingExpr l n) :
    Carries l (Expr.moved l) (expr (n + 1) (room + 1) .assignment)
      (expr (n + 1) (room + 1) .assignment) := by
  rw [expr]
  refine (ih.expr _).bind fun target => (Carries.accept _).bind fun o => ?_
  cases o with
  | none => exact .pure _
  | some equals =>
    refine (ih.expr _).bind fun value => ?_
    cases target with
    | reference name use => exact .pure _
    | _ => exact (Carries.report _ _).bind fun _ => .pure _

theorem carrying_conditional (ih : CarryingExpr l n) :
    Carries l (Expr.moved l) (expr (n + 1) (room + 1) .conditional)
      (expr (n + 1) (room + 1) .conditional) := by
  rw [expr]
  refine (ih.expr _).bind fun condition => (Carries.accept _).bind fun o => ?_
  cases o with
  | none => exact .pure _
  | some _ =>
    exact (ih.expr _).bind fun _ => (Carries.expect _).bind fun _ => (ih.expr _).bind fun _ =>
      .pure _

theorem carrying_unary (ih : CarryingExpr l n) :
    Carries l (Expr.moved l) (expr (n + 1) (room + 1) .unary) (expr (n + 1) (room + 1) .unary) := by
  rw [expr]
  refine (Carries.accept _).bind fun o => ?_
  cases o with
  | none => exact ih.expr _
  | some op => exact (ih.expr _).bind fun _ => .pure _

theorem carrying_expr_succ (ih : CarryingExpr l n) (level : Level) :
    Carries l (Expr.moved l) (expr (n + 1) room level) (expr (n + 1) room level) := by
  cases room with
  | zero => exact .halt _
  | succ room => cases level with
    | assignment => exact carrying_assignment ih
    | conditional => exact carrying_conditional ih
    | unary => exact carrying_unary ih
    | call => exact (ih.expr _).bind fun _ => ih.calls _
    | primary => exact carrying_primary ih
    | _ => exact (ih.expr _).bind fun _ => ih.operands _ _

theorem carrying_operands (ih : CarryingExpr l n) (level : Level) (left : Expr Unit) :
    Carries l (Expr.moved l) (operands (n + 1) room level left)
      (operands (n + 1) room level (left.moved l)) := by
  rw [operands, operands]
  refine (Carries.accept _).bind fun o => ?_
  cases o with
  | none => exact .pure _
  | some op => exact (ih.expr _).bind fun right => ih.operands level (.binary left op right)

theorem carrying_calls (ih : CarryingExpr l n) (callee : Expr Unit) :
    Carries l (Expr.moved l) (calls (n + 1) room callee) (calls (n + 1) room (callee.moved l)) := by
  rw [calls_succ, calls_succ]
  refine (Carries.accept _).bind fun o => ?_
  cases o with
  | none => exact .pure _
  | some _ =>
    have harguments : Carries l (Expr.movedAll l) (argumentList n room) (argumentList n room) :=
      .unlessAt (ih.arguments 0)
    exact harguments.bind fun args => (Carries.expect _).bind fun paren =>
      ih.calls (.call callee paren args)

theorem carrying_arguments (ih : CarryingExpr l n) (count : Nat) :
    Carries l (Expr.movedAll l) (arguments (n + 1) room count) (arguments (n + 1) room count) := by
  rw [arguments_succ]
  refine (Carries.complainIf _ (.reportHere _)).bind fun _ => (ih.expr _).bind fun first =>
    (Carries.accept _).bind fun o => ?_
  cases o with
  | none => exact .pure [first]
  | some _ => exact (ih.arguments _).bind fun rest => .pure (first :: rest)

theorem carryingExpr (l : Layout) (n : Nat) : CarryingExpr l n := by
  induction n with
  | zero => exact ⟨fun _ => .halt _, fun _ _ => .halt _, fun _ => .halt _, fun _ => .halt _⟩
  | succ n ih =>
    exact ⟨carrying_expr_succ ih, carrying_operands ih, carrying_calls ih, carrying_arguments ih⟩

theorem carrying_expr (n : Nat) (level : Level) :
    Carries l (Expr.moved l) (expr n room level) (expr n room level) :=
  (carryingExpr l n).expr level

theorem carrying_optional (n : Nat) :
    Carries l (Option.map (Expr.moved l)) (some <$> expr n room .comma)
      (some <$> expr n room .comma) :=
  (carrying_expr n _).map fun _ => rfl

theorem carrying_parameters (n count : Nat) :
    Carries l (List.map (Token.moved l)) (parameters n count) (parameters n count) := by
  induction n generalizing count with
  | zero => exact .halt _
  | succ n ih =>
    rw [parameters_succ]
    refine (Carries.complainIf _ (.reportHere _)).bind fun _ => (Carries.expect _).bind
      fun first => (Carries.accept _).bind fun o => ?_
    cases o with
    | none => exact .pure [first]
    | some _ => exact (ih _).bind fun rest => .pure (first :: rest)

theorem carrying_varDeclaration (n : Nat) :
    Carries l (Stmt.moved l) (varDeclaration n room) (varDeclaration n room) := by
  rw [varDeclaration_eq]
  have hinit : Carries l (Option.map (Expr.moved l)) (initializer n room) (initializer n room) := by
    refine (Carries.accept _).bind fun o => ?_
    cases o with
    | none => exact .pure none
    | some _ => exact carrying_optional n
  exact (Carries.expect _).bind fun _ => hinit.bind fun _ => (Carries.expect _).bind fun _ =>
    .pure _

theorem carrying_expressionStatement (n : Nat) :
    Carries l (Stmt.moved l) (expressionStatement n room) (expressionStatement n room) :=
  (carrying_expr n _).bind fun _ => (Carries.expect _).bind fun _ => .pure _

theorem carrying_printStatement (n : Nat) :
    Carries l (Stmt.moved l) (printStatement n room) (printStatement n room) :=
  (carrying_expr n _).bind fun _ => (Carries.expect _).bind fun _ => .pure _

theorem carrying_returnStatement (n : Nat) (keyword : Token) :
    Carries l (Stmt.moved l) (returnStatement n room keyword)
      (returnStatement n room (keyword.moved l)) := by
  rw [returnStatement_eq, returnStatement_eq]
  have hvalue : Carries l (Option.map (Expr.moved l))
      (unlessAt .semicolon none (some <$> expr n room .comma))
      (unlessAt .semicolon none (some <$> expr n room .comma)) := .unlessAt (carrying_optional n)
  exact hvalue.bind fun _ => (Carries.expect _).bind fun _ => .pure _

theorem carrying_jumpStatement (c : Context) (j : Jump) (keyword : Token) :
    Carries l (Stmt.moved l) (jumpStatement c j keyword)
      (jumpStatement c j (keyword.moved l)) := by
  rw [jumpStatement_eq, jumpStatement_eq]
  exact (Carries.complainIf _ (.report _ _)).bind fun _ => (Carries.expect _).bind fun _ =>
    .pure _

theorem carrying_parenthesized (n : Nat) (left right : Slot) :
    Carries l (Expr.moved l) (parenthesized n room left right) (parenthesized n room left right) :=
  (Carries.expect _).bind fun _ => (carrying_expr n _).bind fun _ => (Carries.expect _).bind
    fun _ => .pure _

def ForHead.moved (l : Layout) (head : ForHead) : ForHead :=
  ⟨head.init.map (Stmt.moved l), head.condition.moved l, head.step.map (Expr.moved l)⟩

theorem ForHead.loop_moved (head : ForHead) (body : Stmt Unit) :
    (head.moved l).loop (body.moved l) = (head.loop body).moved l := by
  obtain ⟨init, condition, step⟩ := head
  cases init <;> cases step <;> rfl

theorem carrying_forInit (n : Nat) :
    Carries l (Option.map (Stmt.moved l)) (forInit n room) (forInit n room) := by
  refine Carries.peek.bind fun k => ?_
  dsimp only [id]
  split
  · exact Carries.advance.bind fun _ => (carrying_varDeclaration n).map fun _ => rfl
  · exact Carries.advance.bind fun _ => .pure none
  · exact (carrying_expressionStatement n).map fun _ => rfl

theorem carrying_forHead (n : Nat) :
    Carries l (ForHead.moved l) (forHead n room) (forHead n room) := by
  rw [forHead_eq]
  have hcondition : Carries l (Expr.moved l)
      (unlessAt .semicolon (.literal (.bool true)) (expr n room .comma))
      (unlessAt .semicolon (.literal (.bool true)) (expr n room .comma)) :=
    .unlessAt (carrying_expr n _)
  have hstep : Carries l (Option.map (Expr.moved l))
      (unlessAt .rightParen none (some <$> expr n room .comma))
      (unlessAt .rightParen none (some <$> expr n room .comma)) := .unlessAt (carrying_optional n)
  exact (Carries.expect _).bind fun _ => (carrying_forInit n).bind fun _ => hcondition.bind
    fun _ => (Carries.expect _).bind fun _ => hstep.bind fun _ => (Carries.expect _).bind
    fun _ => .pure _

/-- The grammar functions of statements with this much fuel. -/
structure CarryingStmt (l : Layout) (n : Nat) : Prop where
  declaration (c : Context) :
    Carries l (Option.map (Stmt.moved l)) (declaration n c) (declaration n c)
  function (c : Context) : Carries l (Stmt.moved l) (function n c) (function n c)
  statement (c : Context) : Carries l (Stmt.moved l) (statement n c) (statement n c)
  block (c : Context) : Carries l (Stmt.movedAll l) (block n c) (block n c)
  items (c : Context) : Carries l (Stmt.movedAll l) (items n c) (items n c)
  arms (c : Context) : Carries l (Arms.moved l) (arms n c) (arms n c)

theorem carrying_unrecovered (ih : CarryingStmt l n) (c : Context) :
    Carries l (Stmt.moved l) (unrecovered n c) (unrecovered n c) := by
  refine Carries.peek.bind fun k => ?_
  dsimp only [id]
  split
  · exact Carries.advance.bind fun _ => ih.function c
  · exact Carries.advance.bind fun _ => carrying_varDeclaration n
  · exact ih.statement c

theorem carrying_function (ih : CarryingStmt l n) (c : Context) :
    Carries l (Stmt.moved l) (function (n + 1) c) (function (n + 1) c) := by
  rw [function_succ]
  have hparams : Carries l (List.map (Token.moved l)) (parameterList n) (parameterList n) :=
    .unlessAt (carrying_parameters n 0)
  exact (Carries.expect _).bind fun _ => (Carries.expect _).bind fun _ => hparams.bind fun _ =>
    (Carries.expect _).bind fun _ => (Carries.expect _).bind fun _ =>
    (Carries.guardDepth _).bind fun _ => (ih.block _).bind fun _ => .pure _

theorem carrying_ifStatement (ih : CarryingStmt l n) (c : Context) :
    Carries l (Stmt.moved l) (ifStatement n c) (ifStatement n c) := by
  refine (carrying_parenthesized n _ _).bind fun _ => (ih.statement _).bind fun _ =>
    (Carries.accept _).bind fun o => ?_
  cases o with
  | none => exact .pure _
  | some _ => exact (ih.statement _).bind fun _ => .pure _

theorem carrying_switchStatement (ih : CarryingStmt l n) (c : Context) :
    Carries l (Stmt.moved l) (switchStatement n c) (switchStatement n c) :=
  (carrying_parenthesized n _ _).bind fun _ => (Carries.expect _).bind fun _ =>
    (ih.arms _).bind fun _ => (Carries.expect _).bind fun _ => .pure _

theorem carrying_forStatement (ih : CarryingStmt l n) (c : Context) :
    Carries l (Stmt.moved l) (forStatement n c) (forStatement n c) := by
  refine (carrying_forHead n).bind fun head => (ih.statement _).bind fun body => ?_
  rw [ForHead.loop_moved]
  exact .pure _

theorem carrying_doStatement (ih : CarryingStmt l n) (c : Context) :
    Carries l (Stmt.moved l) (doStatement n c) (doStatement n c) :=
  (ih.statement _).bind fun _ => (Carries.expect _).bind fun _ =>
    (carrying_parenthesized n _ _).bind fun _ => (Carries.expect _).bind fun _ => .pure _

theorem carrying_form (ih : CarryingStmt l n) (c : Context) :
    Carries l (Stmt.moved l) (form n c) (form n c) := by
  refine Carries.peek.bind fun k => ?_
  dsimp only [id]
  split
  · exact Carries.advance.bind fun _ => carrying_printStatement n
  · exact Carries.advance.bind fun _ => (ih.block _).bind fun _ => .pure _
  · exact Carries.advance.bind fun _ => carrying_ifStatement ih c
  · exact Carries.advance.bind fun _ => carrying_switchStatement ih c
  · exact Carries.advance.bind fun _ => (carrying_parenthesized n _ _).bind fun _ =>
      (ih.statement _).bind fun _ => .pure _
  · exact Carries.advance.bind fun _ => carrying_forStatement ih c
  · exact Carries.advance.bind fun _ => carrying_doStatement ih c
  · exact Carries.advance.bind fun _ => carrying_jumpStatement _ _ _
  · exact Carries.advance.bind fun _ => carrying_jumpStatement _ _ _
  · exact Carries.advance.bind fun _ => carrying_returnStatement n _
  · exact carrying_expressionStatement n

theorem carrying_items (ih : CarryingStmt l n) (c : Context) :
    Carries l (Stmt.movedAll l) (items (n + 1) c) (items (n + 1) c) := by
  rw [items]
  refine Carries.peek.bind fun k => ?_
  dsimp only [id]
  have hmore : Carries l (Stmt.movedAll l)
      (declaration n c >>= fun first => items n c >>= fun rest => pure (first.toList ++ rest))
      (declaration n c >>= fun first => items n c >>= fun rest => pure (first.toList ++ rest)) := by
    refine (ih.declaration _).bind fun first => (ih.items _).bind fun rest => ?_
    cases first with
    | none => exact .pure rest
    | some s => exact .pure (s :: rest)
  split
  · exact .pure []
  · exact .pure []
  · exact hmore

theorem carrying_arms (ih : CarryingStmt l n) (c : Context) :
    Carries l (Arms.moved l) (arms (n + 1) c) (arms (n + 1) c) := by
  rw [arms]
  refine Carries.peek.bind fun k => ?_
  dsimp only [id]
  split
  · exact Carries.advance.bind fun _ => (carrying_expr n _).bind fun _ => (Carries.expect _).bind
      fun _ => (ih.statement _).bind fun _ => (ih.arms _).bind fun _ => .pure _
  · exact Carries.advance.bind fun _ => (Carries.expect _).bind fun _ => (ih.statement _).bind
      fun _ => .pure _
  · exact .pure (Arms.done : Arms Unit)

theorem carryingStmt (l : Layout) (n : Nat) : CarryingStmt l n := by
  induction n with
  | zero =>
    exact ⟨fun _ => .halt _, fun _ => .halt _, fun _ => .halt _, fun _ => .halt _,
      fun _ => .halt _, fun _ => .halt _⟩
  | succ n ih =>
    refine ⟨fun c => ?_, carrying_function ih, fun c => ?_, fun c => ?_, carrying_items ih,
      carrying_arms ih⟩
    · rw [declaration_succ]
      exact .recovering (carrying_unrecovered ih c)
    · rw [statement_succ]
      exact (Carries.guardDepth _).bind fun _ => carrying_form ih _
    · rw [block]
      exact (ih.items _).bind fun _ => (Carries.expect _).bind fun _ => .pure _

def Ending.moved (l : Layout) : Ending → Ending
  | .done s => .done (s.moved l)
  | .halted cause s => .halted cause (s.moved l)

theorem program_moved (n : Nat) (s : State) :
    program n room (s.moved l) =
      (Stmt.movedAll l (program n room s).1, (program n room s).2.moved l) := by
  induction n generalizing s with
  | zero => rfl
  | succ n ih =>
    have hend : (s.moved l).atEnd = s.atEnd := rfl
    rw [program, program, hend, (carryingStmt l n).declaration (.top room) s]
    cases s.atEnd with
    | true => rfl
    | false =>
      cases declaration n (.top room) s with
      | bad r => rfl
      | halt cause r => rfl
      | ok d r =>
        simp only [Result.moved, Bool.false_eq_true, if_false]
        rw [ih]
        cases d <;> simp [Stmt.movedAll]

theorem Ending.close_moved (statements : List (Stmt Unit)) (ending : Ending) :
    (ending.moved l).close (Stmt.movedAll l statements) =
      (ending.close statements).map (Parsed.moved l) := by
  cases ending with
  | done s => rfl
  | halted cause s =>
    cases cause with
    | nesting =>
      have hcalm : (s.moved l).calm = s.calm.moved l := rfl
      have hreport := State.report_moved (l := l) (s := s.calm) s.current .tooDeep
      simp only [moved, close, hcalm]
      exact congrArg (fun r : State =>
        (Except.ok ⟨Stmt.movedAll l statements, r.reports⟩ : Except ParseFault Parsed)) hreport
    | outOfTokens | badNumber | outOfFuel => rfl

/-- The token that is current before the first one plays no part. -/
theorem State.pullFrom_current (s : State) (t : Token) (ts : List Token) :
    State.pullFrom { s with current := t } ts = s.pullFrom ts := by
  induction ts generalizing s with
  | nil => rfl
  | cons u ts ih =>
    rw [pullFrom, pullFrom]
    split
    · exact ih (s.calm.report u (.lexical u.lexeme))
    · rfl

theorem State.start_moved (tokens : List Token) :
    State.start? (tokens.map (Token.moved l)) = (State.start? tokens).map (State.moved l) := by
  unfold State.start?
  rw [← State.pull_moved]
  exact (State.pullFrom_current _ ((default : Token).moved l) _).symm

end Parse

open Parse

/-- Moving the tokens moves the tree and the reports, and changes nothing else. -/
theorem parse_moved (l : Layout) (room : Nat) (tokens : List Token) :
    parse room (tokens.map (Token.moved l)) = (parse room tokens).map (Parsed.moved l) := by
  unfold parse
  rw [State.start_moved, List.length_map]
  cases State.start? tokens with
  | none => rfl
  | some s =>
    simp only [Option.map_some]
    rw [program_moved]
    exact Ending.close_moved _ _

end Scriptlet

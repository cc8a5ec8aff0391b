import Scriptlet.Proofs.Parsing.Parts

/-! The grammar is made of a few elementary steps, one after another. What these steps keep and what
recovery keeps, every function of the grammar keeps. -/
namespace Scriptlet.Parse

variable {α β : Type}

/-- A parser that is a sequence of elementary steps, some of which may recover from their errors. A
number is read only where there is one. -/
inductive Elementary : {α : Type} → Parser α → Prop where
  | pure {α : Type} (a : α) : Elementary (pure a : Parser α)
  | bind {α β : Type} {p : Parser α} {f : α → Parser β} (hp : Elementary p)
    (hf : ∀ a, Elementary (f a)) : Elementary (p >>= f)
  | halt {α : Type} {cause : Halt} (h : cause = .nesting ∨ cause = .outOfFuel) :
    Elementary (halt cause : Parser α)
  | advance : Elementary advance
  | peek : Elementary peek
  | number {f : Kind → Parser (Expr Unit)} (hnumber : f .number = numberLiteral)
    (hf : ∀ k, k ≠ .number → Elementary (f k)) : Elementary (peek >>= f)
  | check (kind : Kind) : Elementary (check kind)
  | report (t : Token) (cause : SyntaxError) : Elementary (report t cause)
  | reportHere (cause : SyntaxError) : Elementary (reportHere cause)
  | fail {α : Type} (cause : SyntaxError) : Elementary (fail cause : Parser α)
  | recovering {α : Type} {inBlock : Bool} {p : Parser α} (hp : Elementary p) :
    Elementary (recovering inBlock p)

namespace Elementary

theorem map {p : Parser α} (f : α → β) (hp : Elementary p) : Elementary (f <$> p) :=
  hp.bind fun a => pure (f a)

theorem accept (kinds : List Kind) : Elementary (accept kinds) :=
  peek.bind fun k => by
    by_cases h : k ∈ kinds
    · simpa only [h, if_true] using advance.bind fun t => pure (some t)
    · simpa only [h, if_false] using pure none

theorem expect (slot : Slot) : Elementary (expect slot) :=
  (check _).bind fun b => by
    cases b
    · exact fail _
    · exact advance

theorem unlessAt {stop : Kind} {absent : α} {p : Parser α} (hp : Elementary p) :
    Elementary (unlessAt stop absent p) :=
  (check stop).bind fun b => by
    cases b
    · exact hp
    · exact pure absent

theorem complainIf (bad : Bool) {complaint : Parser Unit} (h : Elementary complaint) :
    Elementary (complainIf bad complaint) := by
  cases bad
  · exact pure ()
  · exact h

theorem literal (value : Literal) : Elementary (literal value) := advance.bind fun _ => pure _

theorem stringLiteral : Elementary stringLiteral := advance.bind fun _ => pure _

theorem noFuel : Elementary (Parse.halt .outOfFuel : Parser α) := halt (.inr rfl)

theorem noRoom : Elementary (Parse.halt .nesting : Parser α) := halt (.inl rfl)

theorem guardDepth (c : Context) : Elementary (guardDepth c) := by
  unfold Parse.guardDepth
  split
  · exact noRoom
  · exact pure ()

end Elementary

/-- The grammar functions of expressions with this much fuel. -/
structure ElementaryExpr (n : Nat) : Prop where
  expr {room : Nat} (level : Level) : Elementary (expr n room level)
  operands {room : Nat} (level : Level) (left : Expr Unit) :
    Elementary (operands n room level left)
  calls {room : Nat} (callee : Expr Unit) : Elementary (calls n room callee)
  arguments {room : Nat} (count : Nat) : Elementary (arguments n room count)

variable {n room : Nat}

theorem elementary_primary (ih : ElementaryExpr n) :
    Elementary (expr (n + 1) (room + 1) .primary) := by
  rw [expr]
  refine .number rfl fun k hk => ?_
  split
  · exact .literal _
  · exact .literal _
  · exact .literal _
  · exact absurd rfl hk
  · exact .stringLiteral
  · exact .bind .advance fun _ => .bind (ih.expr _) fun _ => .bind (.expect _) fun _ => .pure _
  · exact .bind .advance fun _ => .pure _
  · exact .fail _

theorem elementary_assignment (ih : ElementaryExpr n) :
    Elementary (expr (n + 1) (room + 1) .assignment) := by
  rw [expr]
  refine .bind (ih.expr _) fun target => .bind (.accept _) fun o => ?_
  cases o with
  | none => exact .pure _
  | some equals =>
    refine .bind (ih.expr _) fun value => ?_
    cases target with
    | reference name use => exact .pure _
    | _ => exact .bind (.report _ _) fun _ => .pure _

theorem elementary_conditional (ih : ElementaryExpr n) :
    Elementary (expr (n + 1) (room + 1) .conditional) := by
  rw [expr]
  refine .bind (ih.expr _) fun condition => .bind (.accept _) fun o => ?_
  cases o with
  | none => exact .pure _
  | some _ =>
    exact .bind (ih.expr _) fun _ => .bind (.expect _) fun _ => .bind (ih.expr _) fun _ => .pure _

theorem elementary_unary (ih : ElementaryExpr n) :
    Elementary (expr (n + 1) (room + 1) .unary) := by
  rw [expr]
  refine .bind (.accept _) fun o => ?_
  cases o with
  | none => exact ih.expr _
  | some op => exact .bind (ih.expr _) fun _ => .pure _

theorem elementary_expr_succ (ih : ElementaryExpr n) (level : Level) :
    Elementary (expr (n + 1) room level) := by
  cases room with
  | zero => exact .noRoom
  | succ room => cases level with
    | assignment => exact elementary_assignment ih
    | conditional => exact elementary_conditional ih
    | unary => exact elementary_unary ih
    | call => exact .bind (ih.expr _) fun _ => ih.calls _
    | primary => exact elementary_primary ih
    | _ => exact .bind (ih.expr _) fun _ => ih.operands _ _

theorem elementary_operands (ih : ElementaryExpr n) (level : Level) (left : Expr Unit) :
    Elementary (operands (n + 1) room level left) := by
  rw [operands]
  refine .bind (.accept _) fun o => ?_
  cases o with
  | none => exact .pure _
  | some op => exact .bind (ih.expr _) fun _ => ih.operands _ _

theorem elementary_calls (ih : ElementaryExpr n) (callee : Expr Unit) :
    Elementary (calls (n + 1) room callee) := by
  rw [calls_succ]
  refine .bind (.accept _) fun o => ?_
  cases o with
  | none => exact .pure _
  | some _ =>
    exact .bind (.unlessAt (ih.arguments _)) fun _ => .bind (.expect _) fun _ => ih.calls _

theorem elementary_arguments (ih : ElementaryExpr n) (count : Nat) :
    Elementary (arguments (n + 1) room count) := by
  rw [arguments_succ]
  refine .bind (.complainIf _ (.reportHere _)) fun _ => .bind (ih.expr _) fun _ =>
    .bind (.accept _) fun o => ?_
  cases o with
  | none => exact .pure _
  | some _ => exact .bind (ih.arguments _) fun _ => .pure _

theorem elementaryExpr (n : Nat) : ElementaryExpr n := by
  induction n with
  | zero => exact ⟨fun _ => .noFuel, fun _ _ => .noFuel, fun _ => .noFuel, fun _ => .noFuel⟩
  | succ n ih =>
    exact ⟨elementary_expr_succ ih, elementary_operands ih, elementary_calls ih,
      elementary_arguments ih⟩

theorem elementary_expr (n : Nat) (level : Level) : Elementary (expr n room level) :=
  (elementaryExpr n).expr level

theorem elementary_optional (n : Nat) : Elementary (some <$> expr n room .comma) :=
  (elementary_expr n _).map _

theorem elementary_parameters (n count : Nat) : Elementary (parameters n count) := by
  induction n generalizing count with
  | zero => exact .noFuel
  | succ n ih =>
    rw [parameters_succ]
    refine .bind (.complainIf _ (.reportHere _)) fun _ => .bind (.expect _) fun _ =>
      .bind (.accept _) fun o => ?_
    cases o with
    | none => exact .pure _
    | some _ => exact .bind (ih _) fun _ => .pure _

theorem elementary_initializer (n : Nat) : Elementary (initializer n room) :=
  .bind (.accept _) fun o => by
    cases o with
    | none => exact .pure _
    | some _ => exact elementary_optional n

theorem elementary_varDeclaration (n : Nat) : Elementary (varDeclaration n room) := by
  rw [varDeclaration_eq]
  exact .bind (.expect _) fun _ => .bind (elementary_initializer n) fun _ =>
    .bind (.expect _) fun _ => .pure _

theorem elementary_expressionStatement (n : Nat) : Elementary (expressionStatement n room) :=
  .bind (elementary_expr n _) fun _ => .bind (.expect _) fun _ => .pure _

theorem elementary_printStatement (n : Nat) : Elementary (printStatement n room) :=
  .bind (elementary_expr n _) fun _ => .bind (.expect _) fun _ => .pure _

theorem elementary_returnStatement (n : Nat) (keyword : Token) :
    Elementary (returnStatement n room keyword) := by
  rw [returnStatement_eq]
  exact .bind (.unlessAt (elementary_optional n)) fun _ => .bind (.expect _) fun _ => .pure _

theorem elementary_jumpStatement (c : Context) (j : Jump) (keyword : Token) :
    Elementary (jumpStatement c j keyword) := by
  rw [jumpStatement_eq]
  exact .bind (.complainIf _ (.report _ _)) fun _ => .bind (.expect _) fun _ => .pure _

theorem elementary_parenthesized (n : Nat) (left right : Slot) :
    Elementary (parenthesized n room left right) :=
  .bind (.expect _) fun _ => .bind (elementary_expr n _) fun _ => .bind (.expect _) fun _ => .pure _

theorem elementary_forInit (n : Nat) : Elementary (forInit n room) := by
  refine .bind .peek fun k => ?_
  split
  · exact .bind .advance fun _ => (elementary_varDeclaration n).map _
  · exact .bind .advance fun _ => .pure _
  · exact (elementary_expressionStatement n).map _

theorem elementary_forHead (n : Nat) : Elementary (forHead n room) := by
  rw [forHead_eq]
  exact .bind (.expect _) fun _ => .bind (elementary_forInit n) fun _ =>
    .bind (.unlessAt (elementary_expr n _)) fun _ => .bind (.expect _) fun _ =>
    .bind (.unlessAt (elementary_optional n)) fun _ => .bind (.expect _) fun _ => .pure _

/-- The grammar functions of statements with this much fuel. -/
structure ElementaryStmt (n : Nat) : Prop where
  declaration (c : Context) : Elementary (declaration n c)
  function (c : Context) : Elementary (function n c)
  statement (c : Context) : Elementary (statement n c)
  block (c : Context) : Elementary (block n c)
  items (c : Context) : Elementary (items n c)
  arms (c : Context) : Elementary (arms n c)

theorem elementary_unrecovered (ih : ElementaryStmt n) (c : Context) :
    Elementary (unrecovered n c) := by
  refine .bind .peek fun k => ?_
  split
  · exact .bind .advance fun _ => ih.function c
  · exact .bind .advance fun _ => elementary_varDeclaration n
  · exact ih.statement c

theorem elementary_function (ih : ElementaryStmt n) (c : Context) :
    Elementary (function (n + 1) c) := by
  rw [function_succ]
  exact .bind (.expect _) fun _ => .bind (.expect _) fun _ =>
    .bind (.unlessAt (elementary_parameters n 0)) fun _ => .bind (.expect _) fun _ =>
    .bind (.expect _) fun _ => .bind (.guardDepth _) fun _ => .bind (ih.block _) fun _ => .pure _

theorem elementary_ifStatement (ih : ElementaryStmt n) (c : Context) :
    Elementary (ifStatement n c) := by
  refine .bind (elementary_parenthesized n _ _) fun _ => .bind (ih.statement _) fun _ =>
    .bind (.accept _) fun o => ?_
  cases o with
  | none => exact .pure _
  | some _ => exact .bind (ih.statement _) fun _ => .pure _

theorem elementary_switchStatement (ih : ElementaryStmt n) (c : Context) :
    Elementary (switchStatement n c) :=
  .bind (elementary_parenthesized n _ _) fun _ => .bind (.expect _) fun _ =>
    .bind (ih.arms _) fun _ => .bind (.expect _) fun _ => .pure _

theorem elementary_doStatement (ih : ElementaryStmt n) (c : Context) :
    Elementary (doStatement n c) :=
  .bind (ih.statement _) fun _ => .bind (.expect _) fun _ =>
    .bind (elementary_parenthesized n _ _) fun _ => .bind (.expect _) fun _ => .pure _

theorem elementary_form (ih : ElementaryStmt n) (c : Context) : Elementary (form n c) := by
  refine .bind .peek fun k => ?_
  split
  · exact .bind .advance fun _ => elementary_printStatement n
  · exact .bind .advance fun _ => .bind (ih.block _) fun _ => .pure _
  · exact .bind .advance fun _ => elementary_ifStatement ih c
  · exact .bind .advance fun _ => elementary_switchStatement ih c
  · exact .bind .advance fun _ => .bind (elementary_parenthesized n _ _) fun _ =>
      .bind (ih.statement _) fun _ => .pure _
  · exact .bind .advance fun _ => .bind (elementary_forHead n) fun _ =>
      .bind (ih.statement _) fun _ => .pure _
  · exact .bind .advance fun _ => elementary_doStatement ih c
  · exact .bind .advance fun _ => elementary_jumpStatement _ _ _
  · exact .bind .advance fun _ => elementary_jumpStatement _ _ _
  · exact .bind .advance fun _ => elementary_returnStatement n _
  · exact elementary_expressionStatement n

theorem elementary_statement (ih : ElementaryStmt n) (c : Context) :
    Elementary (statement (n + 1) c) := by
  rw [statement_succ]
  exact .bind (.guardDepth _) fun _ => elementary_form ih _

theorem elementary_items (ih : ElementaryStmt n) (c : Context) : Elementary (items (n + 1) c) := by
  rw [items]
  refine .bind .peek fun k => ?_
  split
  · exact .pure _
  · exact .pure _
  · exact .bind (ih.declaration _) fun _ => .bind (ih.items _) fun _ => .pure _

theorem elementary_arms (ih : ElementaryStmt n) (c : Context) : Elementary (arms (n + 1) c) := by
  rw [arms]
  refine .bind .peek fun k => ?_
  split
  · exact .bind .advance fun _ => .bind (elementary_expr n _) fun _ => .bind (.expect _) fun _ =>
      .bind (ih.statement _) fun _ => .bind (ih.arms _) fun _ => .pure _
  · exact .bind .advance fun _ => .bind (.expect _) fun _ => .bind (ih.statement _) fun _ =>
      .pure _
  · exact .pure _

theorem elementaryStmt (n : Nat) : ElementaryStmt n := by
  induction n with
  | zero =>
    exact ⟨fun _ => .noFuel, fun _ => .noFuel, fun _ => .noFuel, fun _ => .noFuel,
      fun _ => .noFuel, fun _ => .noFuel⟩
  | succ n ih =>
    refine ⟨fun c => .recovering (elementary_unrecovered ih c), elementary_function ih,
      elementary_statement ih, fun c => ?_,
      elementary_items ih, elementary_arms ih⟩
    exact .bind (ih.items _) fun _ => .bind (.expect _) fun _ => .pure _

end Scriptlet.Parse

import Scriptlet.Proofs.Parsing.Total

/-! More fuel changes nothing: what a parser does without running out of fuel, it does with any
fuel above that. -/
namespace Scriptlet.Parse

variable {α β : Type} {n m room : Nat}

/-- The second parser does what the first one does, unless that runs out of fuel. -/
def Outlasted (p q : Parser α) : Prop := ∀ s, (∃ r, p s = .halt .outOfFuel r) ∨ q s = p s

namespace Outlasted

theorem refl (p : Parser α) : Outlasted p p := fun _ => .inr rfl

theorem noFuel (q : Parser α) : Outlasted (halt .outOfFuel) q := fun s => .inl ⟨s, rfl⟩

theorem bind {p q : Parser α} {f g : α → Parser β} (hp : Outlasted p q)
    (hf : ∀ a, Outlasted (f a) (g a)) : Outlasted (p >>= f) (q >>= g) := by
  intro s
  change (∃ r, Parser.bind p f s = _) ∨ Parser.bind q g s = Parser.bind p f s
  unfold Parser.bind
  rcases hp s with ⟨r, hr⟩ | hq
  · exact .inl ⟨r, by rw [hr]⟩
  · rw [hq]
    cases p s with
    | ok a r => exact hf a r
    | bad r | halt cause r => exact .inr rfl

theorem map {p q : Parser α} (f : α → β) (hp : Outlasted p q) : Outlasted (f <$> p) (f <$> q) :=
  hp.bind fun a => refl (Pure.pure (f a))

/-- The same first step, whatever it is. -/
theorem after (p : Parser α) {f g : α → Parser β} (hf : ∀ a, Outlasted (f a) (g a)) :
    Outlasted (p >>= f) (p >>= g) := (refl p).bind hf

theorem unlessAt {stop : Kind} {absent : α} {p q : Parser α} (hp : Outlasted p q) :
    Outlasted (unlessAt stop absent p) (unlessAt stop absent q) :=
  after _ fun b => by
    cases b with
    | true => exact refl _
    | false => exact hp

theorem recovering {inBlock : Bool} {p q : Parser α} (hp : Outlasted p q) :
    Outlasted (recovering inBlock p) (recovering inBlock q) := by
  intro s
  unfold Parse.recovering
  rcases hp s.calm with ⟨r, hr⟩ | hq
  · exact .inl ⟨r, by rw [hr]⟩
  · rw [hq]
    exact .inr rfl

end Outlasted

/-- The grammar functions of expressions with the one fuel and with the other. -/
structure OutlastedExpr (n m : Nat) : Prop where
  expr {room : Nat} (level : Level) : Outlasted (expr n room level) (expr m room level)
  operands {room : Nat} (level : Level) (left : Expr Unit) :
    Outlasted (operands n room level left) (operands m room level left)
  calls {room : Nat} (callee : Expr Unit) : Outlasted (calls n room callee) (calls m room callee)
  arguments {room : Nat} (count : Nat) : Outlasted (arguments n room count) (arguments m room count)

theorem outlasted_primary (ih : OutlastedExpr n m) :
    Outlasted (expr (n + 1) (room + 1) .primary) (expr (m + 1) (room + 1) .primary) := by
  rw [expr, expr]
  refine .after _ fun k => ?_
  split
  case h_6 => exact .after _ fun _ => (ih.expr _).bind fun _ => .refl _
  all_goals exact .refl _

theorem outlasted_assignment (ih : OutlastedExpr n m) :
    Outlasted (expr (n + 1) (room + 1) .assignment) (expr (m + 1) (room + 1) .assignment) := by
  rw [expr, expr]
  refine (ih.expr _).bind fun target => .after _ fun o => ?_
  cases o with
  | none => exact .refl _
  | some equals => exact (ih.expr _).bind fun value => .refl _

theorem outlasted_conditional (ih : OutlastedExpr n m) :
    Outlasted (expr (n + 1) (room + 1) .conditional) (expr (m + 1) (room + 1) .conditional) := by
  rw [expr, expr]
  refine (ih.expr _).bind fun condition => .after _ fun o => ?_
  cases o with
  | none => exact .refl _
  | some _ =>
    exact (ih.expr _).bind fun _ => .after _ fun _ => (ih.expr _).bind fun _ => .refl _

theorem outlasted_unary (ih : OutlastedExpr n m) :
    Outlasted (expr (n + 1) (room + 1) .unary) (expr (m + 1) (room + 1) .unary) := by
  rw [expr, expr]
  refine .after _ fun o => ?_
  cases o with
  | none => exact ih.expr _
  | some op => exact (ih.expr _).bind fun _ => .refl _

theorem outlasted_expr_succ (ih : OutlastedExpr n m) (level : Level) :
    Outlasted (expr (n + 1) room level) (expr (m + 1) room level) := by
  cases room with
  | zero => exact .refl _
  | succ room => cases level with
    | assignment => exact outlasted_assignment ih
    | conditional => exact outlasted_conditional ih
    | unary => exact outlasted_unary ih
    | call => exact (ih.expr _).bind fun _ => ih.calls _
    | primary => exact outlasted_primary ih
    | _ => exact (ih.expr _).bind fun _ => ih.operands _ _

theorem outlasted_operands (ih : OutlastedExpr n m) (level : Level) (left : Expr Unit) :
    Outlasted (operands (n + 1) room level left) (operands (m + 1) room level left) := by
  rw [operands, operands]
  refine .after _ fun o => ?_
  cases o with
  | none => exact .refl _
  | some op => exact (ih.expr _).bind fun _ => ih.operands _ _

theorem outlasted_calls (ih : OutlastedExpr n m) (callee : Expr Unit) :
    Outlasted (calls (n + 1) room callee) (calls (m + 1) room callee) := by
  rw [calls_succ, calls_succ]
  refine .after _ fun o => ?_
  cases o with
  | none => exact .refl _
  | some _ =>
    exact (Outlasted.unlessAt (ih.arguments _)).bind fun _ => .after _ fun _ => ih.calls _

theorem outlasted_arguments (ih : OutlastedExpr n m) (count : Nat) :
    Outlasted (arguments (n + 1) room count) (arguments (m + 1) room count) := by
  rw [arguments_succ, arguments_succ]
  refine .after _ fun _ => (ih.expr _).bind fun _ => .after _ fun o => ?_
  cases o with
  | none => exact .refl _
  | some _ => exact (ih.arguments _).bind fun _ => .refl _

theorem outlastedExpr (h : n ≤ m) : OutlastedExpr n m := by
  induction n generalizing m with
  | zero =>
    exact ⟨fun _ => .noFuel _, fun _ _ => .noFuel _, fun _ => .noFuel _, fun _ => .noFuel _⟩
  | succ n ih =>
    obtain ⟨m, rfl⟩ := Nat.exists_eq_add_one_of_ne_zero (Nat.ne_zero_of_lt h)
    have ih := ih (Nat.le_of_succ_le_succ h)
    exact ⟨outlasted_expr_succ ih, outlasted_operands ih, outlasted_calls ih,
      outlasted_arguments ih⟩

theorem outlasted_expr (h : n ≤ m) (level : Level) :
    Outlasted (expr n room level) (expr m room level) :=
  (outlastedExpr h).expr level

theorem outlasted_optional (h : n ≤ m) :
    Outlasted (some <$> expr n room .comma) (some <$> expr m room .comma) :=
  (outlasted_expr h _).map _

theorem outlasted_parameters (h : n ≤ m) (count : Nat) :
    Outlasted (parameters n count) (parameters m count) := by
  induction n generalizing m count with
  | zero => exact .noFuel _
  | succ n ih =>
    obtain ⟨m, rfl⟩ := Nat.exists_eq_add_one_of_ne_zero (Nat.ne_zero_of_lt h)
    rw [parameters_succ, parameters_succ]
    refine .after _ fun _ => .after _ fun _ => .after _ fun o => ?_
    cases o with
    | none => exact .refl _
    | some _ => exact (ih (Nat.le_of_succ_le_succ h) _).bind fun _ => .refl _

theorem outlasted_varDeclaration (h : n ≤ m) :
    Outlasted (varDeclaration n room) (varDeclaration m room) := by
  rw [varDeclaration_eq, varDeclaration_eq]
  have hinit : Outlasted (initializer n room) (initializer m room) := .after _ fun o => by
    cases o with
    | none => exact .refl _
    | some _ => exact outlasted_optional h
  exact .after _ fun _ => hinit.bind fun _ => .refl _

theorem outlasted_expressionStatement (h : n ≤ m) :
    Outlasted (expressionStatement n room) (expressionStatement m room) :=
  (outlasted_expr h _).bind fun _ => .refl _

theorem outlasted_printStatement (h : n ≤ m) :
    Outlasted (printStatement n room) (printStatement m room) :=
  (outlasted_expr h _).bind fun _ => .refl _

theorem outlasted_returnStatement (h : n ≤ m) (keyword : Token) :
    Outlasted (returnStatement n room keyword) (returnStatement m room keyword) := by
  rw [returnStatement_eq, returnStatement_eq]
  exact (Outlasted.unlessAt (outlasted_optional h)).bind fun _ => .refl _

theorem outlasted_parenthesized (h : n ≤ m) (left right : Slot) :
    Outlasted (parenthesized n room left right) (parenthesized m room left right) :=
  .after _ fun _ => (outlasted_expr h _).bind fun _ => .refl _

theorem outlasted_forInit (h : n ≤ m) : Outlasted (forInit n room) (forInit m room) := by
  refine .after _ fun k => ?_
  split
  · exact .after _ fun _ => (outlasted_varDeclaration h).map _
  · exact .refl _
  · exact (outlasted_expressionStatement h).map _

theorem outlasted_forHead (h : n ≤ m) : Outlasted (forHead n room) (forHead m room) := by
  rw [forHead_eq, forHead_eq]
  exact .after _ fun _ => (outlasted_forInit h).bind fun _ =>
    (Outlasted.unlessAt (outlasted_expr h _)).bind fun _ => .after _ fun _ =>
    (Outlasted.unlessAt (outlasted_optional h)).bind fun _ => .refl _

/-- The grammar functions of statements with the one fuel and with the other. -/
structure OutlastedStmt (n m : Nat) : Prop where
  declaration (c : Context) : Outlasted (declaration n c) (declaration m c)
  function (c : Context) : Outlasted (function n c) (function m c)
  statement (c : Context) : Outlasted (statement n c) (statement m c)
  block (c : Context) : Outlasted (block n c) (block m c)
  items (c : Context) : Outlasted (items n c) (items m c)
  arms (c : Context) : Outlasted (arms n c) (arms m c)

theorem outlasted_unrecovered (h : n ≤ m) (ih : OutlastedStmt n m) (c : Context) :
    Outlasted (unrecovered n c) (unrecovered m c) := by
  refine .after _ fun k => ?_
  split
  · exact .after _ fun _ => ih.function c
  · exact .after _ fun _ => outlasted_varDeclaration h
  · exact ih.statement c

theorem outlasted_function (h : n ≤ m) (ih : OutlastedStmt n m) (c : Context) :
    Outlasted (function (n + 1) c) (function (m + 1) c) := by
  rw [function_succ, function_succ]
  exact .after _ fun _ => .after _ fun _ =>
    (Outlasted.unlessAt (outlasted_parameters h 0)).bind fun _ => .after _ fun _ =>
    .after _ fun _ => .after _ fun _ => (ih.block _).bind fun _ => .refl _

theorem outlasted_ifStatement (h : n ≤ m) (ih : OutlastedStmt n m) (c : Context) :
    Outlasted (ifStatement n c) (ifStatement m c) := by
  refine (outlasted_parenthesized h _ _).bind fun _ => (ih.statement _).bind fun _ =>
    .after _ fun o => ?_
  cases o with
  | none => exact .refl _
  | some _ => exact (ih.statement _).bind fun _ => .refl _

theorem outlasted_form (h : n ≤ m) (ih : OutlastedStmt n m) (c : Context) :
    Outlasted (form n c) (form m c) := by
  refine .after _ fun k => ?_
  split
  · exact .after _ fun _ => outlasted_printStatement h
  · exact .after _ fun _ => (ih.block _).bind fun _ => .refl _
  · exact .after _ fun _ => outlasted_ifStatement h ih c
  · exact .after _ fun _ => (outlasted_parenthesized h _ _).bind fun _ => .after _ fun _ =>
      (ih.arms _).bind fun _ => .refl _
  · exact .after _ fun _ => (outlasted_parenthesized h _ _).bind fun _ =>
      (ih.statement _).bind fun _ => .refl _
  · exact .after _ fun _ => (outlasted_forHead h).bind fun _ =>
      (ih.statement _).bind fun _ => .refl _
  · exact .after _ fun _ => (ih.statement _).bind fun _ => .after _ fun _ =>
      (outlasted_parenthesized h _ _).bind fun _ => .refl _
  · exact .refl _
  · exact .refl _
  · exact .after _ fun _ => outlasted_returnStatement h _
  · exact outlasted_expressionStatement h

theorem outlasted_items (ih : OutlastedStmt n m) (c : Context) :
    Outlasted (items (n + 1) c) (items (m + 1) c) := by
  rw [items, items]
  refine .after _ fun k => ?_
  split
  · exact .refl _
  · exact .refl _
  · exact (ih.declaration _).bind fun _ => (ih.items _).bind fun _ => .refl _

theorem outlasted_arms (h : n ≤ m) (ih : OutlastedStmt n m) (c : Context) :
    Outlasted (arms (n + 1) c) (arms (m + 1) c) := by
  rw [arms, arms]
  refine .after _ fun k => ?_
  split
  · exact .after _ fun _ => (outlasted_expr h _).bind fun _ => .after _ fun _ =>
      (ih.statement _).bind fun _ => (ih.arms _).bind fun _ => .refl _
  · exact .after _ fun _ => .after _ fun _ => (ih.statement _).bind fun _ => .refl _
  · exact .refl _

theorem outlastedStmt (h : n ≤ m) : OutlastedStmt n m := by
  induction n generalizing m with
  | zero =>
    exact ⟨fun _ => .noFuel _, fun _ => .noFuel _, fun _ => .noFuel _, fun _ => .noFuel _,
      fun _ => .noFuel _, fun _ => .noFuel _⟩
  | succ n ih =>
    obtain ⟨m, rfl⟩ := Nat.exists_eq_add_one_of_ne_zero (Nat.ne_zero_of_lt h)
    have hle := Nat.le_of_succ_le_succ h
    have ih := ih hle
    refine ⟨fun c => ?_, outlasted_function hle ih, fun c => ?_, fun c => ?_, outlasted_items ih,
      outlasted_arms hle ih⟩
    · rw [declaration_succ, declaration_succ]
      exact .recovering (outlasted_unrecovered hle ih c)
    · rw [statement_succ, statement_succ]
      exact .after _ fun _ => outlasted_form hle ih _
    · rw [block, block]
      exact (ih.items _).bind fun _ => .refl _

theorem program_outlasted (h : n ≤ m) (s : State) :
    (∃ r, (program n room s).2 = .halted .outOfFuel r) ∨ program m room s = program n room s := by
  induction n generalizing m s with
  | zero => exact .inl ⟨s, rfl⟩
  | succ n ih =>
    obtain ⟨m, rfl⟩ := Nat.exists_eq_add_one_of_ne_zero (Nat.ne_zero_of_lt h)
    have hle := Nat.le_of_succ_le_succ h
    unfold program
    by_cases hend : s.atEnd = true
    · rw [if_pos hend, if_pos hend]
      exact .inr rfl
    · rw [if_neg hend, if_neg hend]
      rcases (outlastedStmt hle).declaration (.top room) s with ⟨r, hr⟩ | hd
      · exact .inl ⟨r, by rw [hr]⟩
      · rw [hd]
        cases declaration n (.top room) s with
        | bad r | halt cause r => exact .inr rfl
        | ok d r =>
          rcases ih hle r with ⟨u, hu⟩ | hrest
          · exact .inl ⟨u, hu⟩
          · exact .inr (by simp only [hrest])

/-- Any two fuels that last as long as the tokens give the same. -/
theorem program_eq {s : State} (hn : rulesPerToken * s.rest.length + 14 < n) (h : n ≤ m) :
    program m room s = program n room s :=
  (program_outlasted h s).resolve_left fun ⟨r, hr⟩ => program_ends room hn r hr

end Scriptlet.Parse

import Scriptlet.Proofs.Parsing.Follow
import Scriptlet.Proofs.Parsing.Told
import Scriptlet.Proofs.Parsing.Reading

/-! How many rules are in progress at once while an expression is read. Its tree tells, and the
parser returns no tree for which there was no room. -/
namespace Scriptlet

open Parse (Level)

/-- The level on which an operator joins its operands. -/
def Parse.Level.ofOperator : Kind → Level
  | .comma => comma
  | .or => or
  | .and => and
  | .bangEqual | .equalEqual => equality
  | .greater | .greaterEqual | .less | .lessEqual => comparison
  | .minus | .plus | .percent => term
  | .slash | .star => factor
  | _ => primary

theorem Parse.Level.ofOperator_eq {level : Level} {k : Kind} (h : k ∈ level.operators) :
    ofOperator k = level := by
  have : ∀ k ∈ level.operators, ofOperator k = level := by cases level <;> decide
  exact this k h

/-- The tightest level the expression is one of. -/
def Expr.own : Expr Unit → Level
  | .assign .. => .assignment
  | .binary _ operator _ => .ofOperator operator.kind
  | .call .. => .call
  | .conditional .. => .conditional
  | .unary .. => .unary
  | .grouping _ | .literal _ | .reference .. => .primary

mutual

/-- So many rules are in progress at once, from the one of the level on. The levels down to the own
one are passed first; a left operand is complete before its operator is met. -/
def Expr.rules (level : Level) : Expr Unit → Nat
  | .assign _ value _ => level.rank - Level.assignment.rank + (value.rules .assignment + 1)
  | .binary left operator right =>
    level.rank - (Level.ofOperator operator.kind).rank +
      max (left.rules (.ofOperator operator.kind))
        (right.rules (Level.ofOperator operator.kind).tighter + 1)
  | .call callee _ arguments =>
    level.rank - Level.call.rank + max (callee.rules .call) (Expr.rulesAll arguments + 1)
  | .conditional condition thenBranch elseBranch =>
    level.rank - Level.conditional.rank +
      (max (condition.rules .or)
        (max (thenBranch.rules .comma) (elseBranch.rules .conditional)) + 1)
  | .grouping inner => level.rank + (inner.rules .comma + 1)
  | .literal _ | .reference .. => level.rank + 1
  | .unary _ right => level.rank - Level.unary.rank + (right.rules .unary + 1)

def Expr.rulesAll : List (Expr Unit) → Nat
  | [] => 0
  | e :: es => max (e.rules .assignment) (Expr.rulesAll es)

end

mutual

/-- The most rules that any of the expressions takes. -/
def Stmt.rules : Stmt Unit → Nat
  | .block body | .function _ _ body => Stmt.rulesAll body
  | .jump .. | .give _ none | .var _ none => 0
  | .expression value | .print value | .give _ (some value) | .var _ (some value) =>
    value.rules .comma
  | .ifThen condition body | .loop condition body | .doLoop body condition =>
    max (condition.rules .comma) body.rules
  | .ifElse condition first second | .loopStep condition first second =>
    max (condition.rules .comma) (max first.rules second.rules)
  | .switch subject arms => max (subject.rules .comma) arms.rules

def Stmt.rulesAll : List (Stmt Unit) → Nat
  | [] => 0
  | s :: ss => max s.rules (Stmt.rulesAll ss)

def Arms.rules : Arms Unit → Nat
  | .done => 0
  | .otherwise body => body.rules
  | .case condition body rest => max (condition.rules .comma) (max body.rules rest.rules)

end

/-- Above the own level there is a rule more for each level. -/
theorem Expr.rules_tighter {level : Level} {e : Expr Unit} (hlevel : level ≠ .primary)
    (hown : e.own.rank ≤ level.tighter.rank) : e.rules level = e.rules level.tighter + 1 := by
  have hrank := Level.rank_tighter hlevel
  cases e <;> simp only [Expr.own] at hown <;> simp only [Expr.rules] <;> omega

namespace Grammar.Phrase

/-- An expression is one of the level, and each level down to an operand has its rule. -/
def Deep : Phrase → Prop
  | .expr level e => e.own.rank ≤ level.rank ∧ level.rank < e.rules level
  | .arguments _ => True

theorem SpelledBy.deep {p : Phrase} {ts : List Token} (h : p.SpelledBy ts) : p.Deep := by
  induction h with
  | @tighter level e ts inner ih =>
    by_cases hlevel : level = .primary
    · subst hlevel
      exact ih
    · have hrank := Level.rank_tighter hlevel
      have hown : e.own.rank ≤ level.tighter.rank := ih.1
      have hrules : level.tighter.rank < e.rules level.tighter := ih.2
      refine ⟨by omega, ?_⟩
      rw [Expr.rules_tighter hlevel hown]
      omega
  | @binary level left op right ts us hop hleft hright ihleft ihright =>
    have hrules : level.rank < left.rules level := ihleft.2
    simp only [Deep, Expr.own, Expr.rules, Level.ofOperator_eq hop]
    omega
  | assign hname hequals hvalue ih =>
    have hrules := ih.2
    simp only [Deep, Expr.own, Expr.rules]
    omega
  | conditional hquestion hcolon hcondition hyes hno ihcondition ihyes ihno =>
    have hrules := ihno.2
    simp only [Deep, Expr.own, Expr.rules]
    omega
  | unary hop hright ih =>
    have hrules := ih.2
    simp only [Deep, Expr.own, Expr.rules]
    omega
  | call hleft hright hmany hcallee hargs ihcallee ihargs =>
    have hrules := ihcallee.2
    simp only [Deep, Expr.own, Expr.rules]
    omega
  | grouping | reference | kwTrue | kwFalse | kwNil | number | string =>
    simp only [Deep, Expr.own, Expr.rules]
    omega
  | noArgument | oneArgument | moreArguments => trivial

end Grammar.Phrase

/-- The expression is one of the level, and takes no more than so many rules there. -/
structure Expr.Fits (room : Nat) (level : Level) (e : Expr Unit) : Prop where
  own : e.own.rank ≤ level.rank
  rules : e.rules level ≤ room

theorem Expr.Fits.loosen {room : Nat} {level : Level} {e : Expr Unit} (hlevel : level ≠ .primary)
    (h : e.Fits room level.tighter) : e.Fits (room + 1) level := by
  have hrank := Level.rank_tighter hlevel
  have hown := h.own
  exact ⟨by omega, by rw [Expr.rules_tighter hlevel hown]; exact Nat.succ_le_succ h.rules⟩

namespace Parse

variable {n room : Nat}

/-- The grammar functions of expressions with this much fuel keep to the room there is. -/
structure FittingExpr (n : Nat) : Prop where
  expr {room : Nat} (level : Level) : Gives (expr n room level) (Expr.Fits room level)
  operands {room : Nat} {level : Level} {left : Expr Unit} (hleft : left.Fits (room + 1) level) :
    Gives (operands n room level left) (Expr.Fits (room + 1) level)
  calls {room : Nat} {callee : Expr Unit} (hcallee : callee.Fits (room + 1) .call) :
    Gives (calls n room callee) (Expr.Fits (room + 1) .call)
  arguments {room : Nat} (count : Nat) :
    Gives (arguments n room count) fun es => Expr.rulesAll es ≤ room

theorem fits_assignment (ih : FittingExpr n) :
    Gives (expr (n + 1) (room + 1) .assignment) (Expr.Fits (room + 1) .assignment) := by
  rw [expr]
  refine .bind (ih.expr _) fun target htarget => .after fun o => ?_
  have htarget : target.Fits (room + 1) .assignment := htarget.loosen (by decide)
  cases o with
  | none => exact .pure htarget
  | some equals =>
    refine .bind (ih.expr _) fun value hvalue => ?_
    cases target with
    | reference name use =>
      exact .pure ⟨Nat.le_refl _, by simpa [Expr.rules] using hvalue.rules⟩
    | _ => exact .after fun _ => .pure htarget

theorem fits_conditional (ih : FittingExpr n) :
    Gives (expr (n + 1) (room + 1) .conditional) (Expr.Fits (room + 1) .conditional) := by
  rw [expr]
  refine .bind (ih.expr _) fun condition hcondition => .after fun o => ?_
  cases o with
  | none => exact .pure (hcondition.loosen (by decide))
  | some question =>
    refine .bind (ih.expr _) fun yes hyes => .after fun _ => .bind (ih.expr _) fun no hno =>
      .pure ⟨Nat.le_refl _, ?_⟩
    have := hcondition.rules
    have := hyes.rules
    have := hno.rules
    simp only [Expr.rules]
    omega

theorem fits_unary (ih : FittingExpr n) :
    Gives (expr (n + 1) (room + 1) .unary) (Expr.Fits (room + 1) .unary) := by
  rw [expr]
  refine .after fun o => ?_
  cases o with
  | none => exact (ih.expr _).mono fun e he => he.loosen (by decide)
  | some operator =>
    exact .bind (ih.expr _) fun right hright =>
      .pure ⟨Nat.le_refl _, by simpa [Expr.rules] using hright.rules⟩

theorem fits_primary (ih : FittingExpr n) :
    Gives (expr (n + 1) (room + 1) .primary) (Expr.Fits (room + 1) .primary) := by
  have hoperand {e : Expr Unit} (h : e.rules .primary = 1 ∧ e.own = .primary) :
      e.Fits (room + 1) .primary := ⟨Nat.le_of_eq (congrArg Level.rank h.2), by omega⟩
  rw [expr]
  refine .after fun k => ?_
  split
  · exact .after fun _ => .pure (hoperand ⟨rfl, rfl⟩)
  · exact .after fun _ => .pure (hoperand ⟨rfl, rfl⟩)
  · exact .after fun _ => .pure (hoperand ⟨rfl, rfl⟩)
  · refine .after fun t => ?_
    cases readNumber? t.lexeme with
    | none => exact .halt
    | some x => exact .pure (hoperand ⟨rfl, rfl⟩)
  · exact .after fun _ => .pure (hoperand ⟨rfl, rfl⟩)
  · refine .after fun _ => .bind (ih.expr _) fun inner hinner => .after fun _ =>
      .pure ⟨Nat.le_refl _, ?_⟩
    simpa [Expr.rules, Level.rank] using hinner.rules
  · exact .after fun _ => .pure (hoperand ⟨rfl, rfl⟩)
  · exact fun _ _ _ h => by cases h

theorem fits_operands (ih : FittingExpr n) {level : Level} {left : Expr Unit}
    (hleft : left.Fits (room + 1) level) :
    Gives (operands (n + 1) room level left) (Expr.Fits (room + 1) level) := by
  rw [operands]
  refine .bind (gives_accept _) fun o ho => ?_
  cases o with
  | none => exact .pure hleft
  | some operator =>
    refine .bind (ih.expr _) fun right hright => ih.operands ⟨?_, ?_⟩
    · simp [Expr.own, Level.ofOperator_eq (ho operator rfl)]
    · have := hleft.rules
      have := hright.rules
      simp only [Expr.rules, Level.ofOperator_eq (ho operator rfl)]
      omega

theorem fits_calls (ih : FittingExpr n) {callee : Expr Unit}
    (hcallee : callee.Fits (room + 1) .call) :
    Gives (calls (n + 1) room callee) (Expr.Fits (room + 1) .call) := by
  rw [calls_succ]
  refine .after fun o => ?_
  cases o with
  | none => exact .pure hcallee
  | some left =>
    have hlist : Gives (unlessAt .rightParen [] (arguments n room 0))
        fun args => Expr.rulesAll args ≤ room := .unlessAt (Nat.zero_le _) (ih.arguments 0)
    refine .bind hlist fun args hargs => .after fun _ => ih.calls ⟨Nat.le_refl _, ?_⟩
    have := hcallee.rules
    simp only [Expr.rules]
    omega

theorem fits_arguments (ih : FittingExpr n) (count : Nat) :
    Gives (arguments (n + 1) room count) fun es => Expr.rulesAll es ≤ room := by
  rw [arguments_succ]
  refine .after fun _ => .bind (ih.expr _) fun first hfirst => .after fun o => ?_
  cases o with
  | none => exact .pure (Nat.max_le.2 ⟨hfirst.rules, Nat.zero_le _⟩)
  | some comma =>
    exact .bind (ih.arguments _) fun rest hrest => .pure (Nat.max_le.2 ⟨hfirst.rules, hrest⟩)

theorem fittingExpr (n : Nat) : FittingExpr n := by
  induction n with
  | zero => exact ⟨fun _ => .halt, fun _ => .halt, fun _ => .halt, fun _ => .halt⟩
  | succ n ih =>
    refine ⟨fun {room} level => ?_, fits_operands ih, fits_calls ih, fits_arguments ih⟩
    cases room with
    | zero => exact .halt
    | succ room =>
      have hjoined {level : Level} (hlevel : level ≠ .primary) :
          Gives (expr n room level.tighter >>= operands n room level)
            (Expr.Fits (room + 1) level) :=
        .bind (ih.expr _) fun left hleft => ih.operands (hleft.loosen hlevel)
      cases level with
      | assignment => exact fits_assignment ih
      | conditional => exact fits_conditional ih
      | unary => exact fits_unary ih
      | primary => exact fits_primary ih
      | call => exact .bind (ih.expr _) fun callee hcallee => ih.calls (hcallee.loosen (by decide))
      | _ => exact hjoined (by decide)

/-- The rules of an expression as a whole. -/
theorem gives_expr (n : Nat) : Gives (expr n room .comma) fun e => e.rules .comma ≤ room :=
  ((fittingExpr n).expr .comma).mono fun _ he => he.rules

theorem gives_optional (n : Nat) (stop : Kind) :
    Gives (unlessAt stop none (some <$> expr n room .comma))
      fun o => ∀ e ∈ o, e.rules .comma ≤ room :=
  .unlessAt nofun (.map ((gives_expr n).mono fun _ he _ ha => Option.some.inj ha ▸ he))

theorem gives_parenthesized (n : Nat) {left right : Slot} :
    Gives (parenthesized n room left right) fun e => e.rules .comma ≤ room :=
  .after fun _ => .bind (gives_expr n) fun _ he => .after fun _ => .pure he

theorem rules_varDeclaration (n : Nat) :
    Gives (varDeclaration n room) fun s => s.rules ≤ room := by
  have hinit : Gives (initializer n room) fun o => ∀ e ∈ o, e.rules .comma ≤ room := by
    refine .after fun o => ?_
    cases o with
    | none => exact .pure nofun
    | some _ => exact .map ((gives_expr n).mono fun _ he _ ha => Option.some.inj ha ▸ he)
  rw [varDeclaration_eq]
  refine .after fun name => .bind hinit fun init hrules => .after fun _ => .pure ?_
  cases init with
  | none => exact Nat.zero_le _
  | some e => exact hrules e rfl

theorem rules_expressionStatement (n : Nat) :
    Gives (expressionStatement n room) fun s => s.rules ≤ room :=
  .bind (gives_expr n) fun _ he => .after fun _ => .pure he

theorem rules_printStatement (n : Nat) : Gives (printStatement n room) fun s => s.rules ≤ room :=
  .bind (gives_expr n) fun _ he => .after fun _ => .pure he

theorem rules_returnStatement (n : Nat) (keyword : Token) :
    Gives (returnStatement n room keyword) fun s => s.rules ≤ room := by
  rw [returnStatement_eq]
  refine .bind (gives_optional n _) fun value hvalue => .after fun _ => .pure ?_
  cases value with
  | none => exact Nat.zero_le _
  | some e => exact hvalue e rfl

theorem rules_jumpStatement (c : Context) (j : Jump) (keyword : Token) :
    Gives (jumpStatement c j keyword) fun s => s.rules ≤ room := by
  rw [jumpStatement_eq]
  exact .after fun _ => .after fun _ => .pure (Nat.zero_le _)

theorem rules_forInit (n : Nat) :
    Gives (forInit n room) fun init => ∀ s ∈ init, s.rules ≤ room := by
  have hsome {p : Parser (Stmt Unit)} (hp : Gives p fun s => s.rules ≤ room) :
      Gives (some <$> p) fun init => ∀ s ∈ init, s.rules ≤ room :=
    .map <| hp.mono fun s hs t ht => Option.some.inj ht ▸ hs
  refine .after fun k => ?_
  split
  · exact .after fun _ => hsome (rules_varDeclaration n)
  · exact .after fun _ => .pure nofun
  · exact hsome (rules_expressionStatement n)

/-- The parts of the head of a `for` loop find room. An absent condition is an operand. -/
structure ForHead.Fits (room : Nat) (head : ForHead) : Prop where
  init : ∀ s ∈ head.init, s.rules ≤ room
  condition : head.condition.rules .comma ≤ room
  step : ∀ e ∈ head.step, e.rules .comma ≤ room

theorem fits_forHead (hroom : operandRules ≤ room) (n : Nat) :
    Gives (forHead n room) (ForHead.Fits room) := by
  rw [forHead_eq]
  exact .after fun _ => .bind (rules_forInit n) fun _ hinit =>
    .bind (.unlessAt hroom (gives_expr n)) fun _ hcondition => .after fun _ =>
    .bind (gives_optional n _) fun _ hstep => .after fun _ => .pure ⟨hinit, hcondition, hstep⟩

theorem ForHead.rules_loop_le {head : ForHead} {body : Stmt Unit} :
    (head.loop body).rules ≤ room ↔ head.Fits room ∧ body.rules ≤ room := by
  obtain ⟨init, condition, step⟩ := head
  have hloop : (ForHead.loop ⟨none, condition, step⟩ body).rules ≤ room ↔
      condition.rules .comma ≤ room ∧ (∀ e ∈ step, e.rules .comma ≤ room) ∧ body.rules ≤ room := by
    cases step with
    | none => exact Nat.max_le.trans (and_congr_right fun _ => by simp)
    | some e =>
      refine Nat.max_le.trans (and_congr_right fun _ => Nat.max_le.trans ?_)
      simp [Stmt.rules, and_comm]
  have hfits : ForHead.Fits room ⟨init, condition, step⟩ ↔ (∀ s ∈ init, s.rules ≤ room) ∧
      condition.rules .comma ≤ room ∧ ∀ e ∈ step, e.rules .comma ≤ room :=
    ⟨fun h => ⟨h.init, h.condition, h.step⟩, fun h => ⟨h.1, h.2.1, h.2.2⟩⟩
  rw [hfits]
  cases init with
  | none => simp [hloop, and_assoc]
  | some s =>
    have hblock : (ForHead.loop ⟨some s, condition, step⟩ body).rules =
        max s.rules (ForHead.loop ⟨none, condition, step⟩ body).rules := by
      cases step <;> simp [ForHead.loop, Stmt.rules, Stmt.rulesAll]
    rw [hblock, Nat.max_le, hloop]
    simp [and_assoc]

theorem rulesAll_append (ss ts : List (Stmt Unit)) :
    Stmt.rulesAll (ss ++ ts) = max (Stmt.rulesAll ss) (Stmt.rulesAll ts) := by
  induction ss with
  | nil => simp [Stmt.rulesAll]
  | cons s ss ih => simp [Stmt.rulesAll, ih, Nat.max_assoc]

/-- The grammar functions of statements with this much fuel keep to the room there is. -/
structure FittingStmt (n : Nat) : Prop where
  declaration {c : Context} (hroom : operandRules ≤ c.room) :
    Gives (declaration n c) fun d => ∀ s ∈ d, s.rules ≤ c.room
  function {c : Context} (hroom : operandRules ≤ c.room) :
    Gives (function n c) fun s => s.rules ≤ c.room
  statement {c : Context} (hroom : operandRules ≤ c.room) :
    Gives (statement n c) fun s => s.rules ≤ c.room
  block {c : Context} (hroom : operandRules ≤ c.room) :
    Gives (block n c) fun body => Stmt.rulesAll body ≤ c.room
  items {c : Context} (hroom : operandRules ≤ c.room) :
    Gives (items n c) fun body => Stmt.rulesAll body ≤ c.room
  arms {c : Context} (hroom : operandRules ≤ c.room) :
    Gives (arms n c) fun as => as.rules ≤ c.room

variable {c : Context}

theorem rules_unrecovered (ih : FittingStmt n) (hroom : operandRules ≤ c.room) :
    Gives (unrecovered n c) fun s => s.rules ≤ c.room := by
  refine .after fun k => ?_
  split
  · exact .after fun _ => ih.function hroom
  · exact .after fun _ => rules_varDeclaration n
  · exact ih.statement hroom

theorem rules_function (ih : FittingStmt n) (hroom : operandRules ≤ c.room) :
    Gives (function (n + 1) c) fun s => s.rules ≤ c.room := by
  rw [function_succ]
  exact .after fun _ => .after fun _ => .after fun _ => .after fun _ => .after fun _ =>
    .after fun _ => .bind (ih.block (c := c.function) hroom) fun _ hbody => .pure hbody

theorem rules_ifStatement (ih : FittingStmt n) (hroom : operandRules ≤ c.room) :
    Gives (ifStatement n c) fun s => s.rules ≤ c.room := by
  refine .bind (gives_parenthesized n) fun condition hcondition =>
    .bind (ih.statement hroom) fun yes hyes => .after fun o => ?_
  cases o with
  | none => exact .pure (Nat.max_le.2 ⟨hcondition, hyes⟩)
  | some _ =>
    exact .bind (ih.statement hroom) fun no hno =>
      .pure (Nat.max_le.2 ⟨hcondition, Nat.max_le.2 ⟨hyes, hno⟩⟩)

theorem rules_switchStatement (ih : FittingStmt n) (hroom : operandRules ≤ c.room) :
    Gives (switchStatement n c) fun s => s.rules ≤ c.room :=
  .bind (gives_parenthesized n) fun _ hsubject => .after fun _ =>
    .bind (ih.arms hroom) fun _ has => .after fun _ => .pure (Nat.max_le.2 ⟨hsubject, has⟩)

theorem rules_whileStatement (ih : FittingStmt n) (hroom : operandRules ≤ c.room) :
    Gives (whileStatement n c) fun s => s.rules ≤ c.room :=
  .bind (gives_parenthesized n) fun _ hcondition =>
    .bind (ih.statement (c := c.loop) hroom) fun _ hbody =>
      .pure (Nat.max_le.2 ⟨hcondition, hbody⟩)

theorem rules_forStatement (ih : FittingStmt n) (hroom : operandRules ≤ c.room) :
    Gives (forStatement n c) fun s => s.rules ≤ c.room :=
  .bind (fits_forHead hroom n) fun _ hhead =>
    .bind (ih.statement (c := c.loop) hroom) fun _ hbody =>
      .pure (ForHead.rules_loop_le.2 ⟨hhead, hbody⟩)

theorem rules_doStatement (ih : FittingStmt n) (hroom : operandRules ≤ c.room) :
    Gives (doStatement n c) fun s => s.rules ≤ c.room :=
  .bind (ih.statement (c := c.loop) hroom) fun _ hbody => .after fun _ =>
    .bind (gives_parenthesized n) fun _ hcondition => .after fun _ =>
      .pure (Nat.max_le.2 ⟨hcondition, hbody⟩)

theorem rules_form (ih : FittingStmt n) (hroom : operandRules ≤ c.room) :
    Gives (form n c) fun s => s.rules ≤ c.room := by
  refine .after fun k => ?_
  split
  · exact .after fun _ => rules_printStatement n
  · exact .after fun _ => .bind (ih.block hroom) fun _ hbody => .pure hbody
  · exact .after fun _ => rules_ifStatement ih hroom
  · exact .after fun _ => rules_switchStatement ih hroom
  · exact .after fun _ => rules_whileStatement ih hroom
  · exact .after fun _ => rules_forStatement ih hroom
  · exact .after fun _ => rules_doStatement ih hroom
  · exact .after fun _ => rules_jumpStatement c _ _
  · exact .after fun _ => rules_jumpStatement c _ _
  · exact .after fun _ => rules_returnStatement n _
  · exact rules_expressionStatement n

theorem rules_items (ih : FittingStmt n) (hroom : operandRules ≤ c.room) :
    Gives (items (n + 1) c) fun body => Stmt.rulesAll body ≤ c.room := by
  rw [items]
  refine .after fun k => ?_
  split
  · exact .pure (Nat.zero_le _)
  · exact .pure (Nat.zero_le _)
  · refine .bind (ih.declaration hroom) fun first hfirst => .bind (ih.items hroom) fun rest hrest =>
      .pure ?_
    rw [rulesAll_append]
    refine Nat.max_le.2 ⟨?_, hrest⟩
    cases first with
    | none => exact Nat.zero_le _
    | some s => exact Nat.max_le.2 ⟨hfirst s rfl, Nat.zero_le _⟩

theorem rules_arms (ih : FittingStmt n) (hroom : operandRules ≤ c.room) :
    Gives (arms (n + 1) c) fun as => as.rules ≤ c.room := by
  rw [arms]
  refine .after fun k => ?_
  split
  · exact .after fun _ => .bind (gives_expr n) fun _ hcondition => .after fun _ =>
      .bind (ih.statement hroom) fun _ hbody => .bind (ih.arms hroom) fun _ hrest =>
      .pure (Nat.max_le.2 ⟨hcondition, Nat.max_le.2 ⟨hbody, hrest⟩⟩)
  · exact .after fun _ => .after fun _ => .bind (ih.statement hroom) fun _ hbody => .pure hbody
  · exact .pure (Nat.zero_le _)

theorem fittingStmt : (n : Nat) → FittingStmt n
  | 0 => ⟨fun _ => .halt, fun _ => .halt, fun _ => .halt, fun _ => .halt, fun _ => .halt,
    fun _ => .halt⟩
  | n + 1 =>
    have ih := fittingStmt n
    { declaration := fun hroom => by
        rw [declaration_succ]
        exact .recovering (rules_unrecovered ih hroom) _
      function := rules_function ih
      statement := fun hroom => by
        rw [statement_succ]
        exact .after fun _ => rules_form ih (c := Context.deeper _) hroom
      block := fun {c} hroom => .bind (ih.items (c := c.block) hroom) fun _ hbody =>
        .after fun _ => .pure hbody
      items := rules_items ih
      arms := rules_arms ih }

theorem rules_program (hroom : operandRules ≤ room) (n : Nat) (s : State) :
    Stmt.rulesAll (program n room s).1 ≤ room := by
  induction n generalizing s with
  | zero => exact Nat.zero_le _
  | succ n ih =>
    unfold program
    split
    · exact Nat.zero_le _
    · cases hfirst : declaration n (.top room) s with
      | bad r => exact Nat.zero_le _
      | halt cause r => exact Nat.zero_le _
      | ok d r =>
        rw [rulesAll_append]
        refine Nat.max_le.2 ⟨?_, ih r⟩
        have hd := (fittingStmt n).declaration (c := .top room) hroom s d r hfirst
        cases d with
        | none => exact Nat.zero_le _
        | some st => exact Nat.max_le.2 ⟨hd st rfl, Nat.zero_le _⟩

end Parse

open Parse

/-- Whatever was reported, the statements found room. -/
theorem rules_le {room : Nat} {tokens : List Token} {parsed : Parsed}
    (h : parse room tokens = .ok parsed) :
    Stmt.rulesAll parsed.statements ≤ operandRules + room := by
  obtain ⟨s, -, hstatements, -⟩ := program_of_parse h
  rw [hstatements]
  exact rules_program (Nat.le_add_right ..) _ s

end Scriptlet

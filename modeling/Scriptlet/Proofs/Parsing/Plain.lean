import Scriptlet.Proofs.Parsing.Parts

/-! The rules below those for statements. They pass no brace and no end, they report no lexical
errors and no nesting, and they leave recovery to the rules above them. They report at the current
token, except where a token is blamed for what comes after it. -/
namespace Scriptlet.Parse

variable {α β : Type} {n room : Nat}

/-- The kinds of token that do not end a statement or a program, or group statements. -/
def Inner (k : Kind) : Prop := k ≠ .leftBrace ∧ k ≠ .rightBrace ∧ k ≠ .eof

instance (k : Kind) : Decidable (Inner k) :=
  inferInstanceAs (Decidable (k ≠ .leftBrace ∧ k ≠ .rightBrace ∧ k ≠ .eof))

/-- The causes that lie in the grammar. -/
def Grammatical : SyntaxError → Prop
  | .lexical _ | .tooDeep => False
  | _ => True

instance : DecidablePred Grammatical := fun cause => by
  cases cause <;> first | exact isTrue trivial | exact isFalse id

/-- Passes a token and goes on. If what follows is bad, the token is blamed. -/
def blaming (p : Parser α) (bad : α → Bool) (cause : SyntaxError) : Parser (Token × α) := do
  let t ← advance
  let a ← p
  complainIf (bad a) (report t cause)
  return (t, a)

/-- A rule that is made of such steps. Where a kind is given, the current token must be of it. -/
inductive Plain : {α : Type} → Option Kind → Parser α → Prop where
  | pure {α : Type} (a : α) : Plain none (pure a : Parser α)
  | bind {α β : Type} {k : Option Kind} {p : Parser α} {f : α → Parser β} (hp : Plain k p)
    (hf : ∀ a, Plain none (f a)) : Plain k (p >>= f)
  | halt {α : Type} (cause : Halt) : Plain none (halt cause : Parser α)
  | reportHere {cause : SyntaxError} (hcause : Grammatical cause) : Plain none (reportHere cause)
  | fail {α : Type} {cause : SyntaxError} (hcause : Grammatical cause) :
    Plain none (fail cause : Parser α)
  | peek {α : Type} {f : Kind → Parser α} (hf : ∀ k, Plain (some k) (f k)) :
    Plain none (peek >>= f)
  | anywhere {α : Type} {k : Kind} {p : Parser α} (hp : Plain none p) : Plain (some k) p
  | advance {k : Kind} (hk : Inner k) : Plain (some k) advance
  | blaming {α : Type} {k : Kind} {p : Parser α} {bad : α → Bool} {cause : SyntaxError}
    (hk : Inner k) (hp : Plain none p) (hcause : Grammatical cause) :
    Plain (some k) (blaming p bad cause)

namespace Plain

theorem map {p : Parser α} (f : α → β) (hp : Plain none p) : Plain none (f <$> p) :=
  hp.bind fun a => pure (f a)

/-- Passes a token first. -/
theorem pass {k : Kind} (hk : Inner k) {f : Token → Parser β} (hf : ∀ t, Plain none (f t)) :
    Plain (some k) (Parse.advance >>= f) := (advance hk).bind hf

theorem complainIf (bad : Bool) {complaint : Parser Unit} (h : Plain none complaint) :
    Plain none (complainIf bad complaint) := by
  cases bad
  · exact pure ()
  · exact h

/-- The token is blamed whatever follows it. -/
theorem blame {k : Kind} (hk : Inner k) {p : Parser α} (hp : Plain none p) {cause : SyntaxError}
    (hcause : Grammatical cause) (b : β) :
    Plain (some k) (Parse.advance >>= fun t => p >>= fun _ => report t cause >>= fun _ =>
      Pure.pure b) := by
  have hblaming : Plain (some k) (Parse.blaming p (fun _ => true) cause) := blaming hk hp hcause
  have hall := hblaming.bind fun _ => pure b
  simpa only [Parse.blaming, bind_assoc, pure_bind, Parse.complainIf, if_true] using hall

/-- Either a token of these kinds is passed, and the rule goes on with it, or there is none. -/
theorem accepted {kinds : List Kind} {f : Option Token → Parser β}
    (hsome : ∀ k ∈ kinds, Plain (some k) (Parse.advance >>= fun t => f (some t)))
    (hnone : Plain none (f none)) : Plain none (accept kinds >>= f) := by
  rw [accept, bind_assoc]
  refine peek fun k => ?_
  split
  next hk => simpa only [bind_assoc, pure_bind] using hsome k hk
  next => simpa only [pure_bind] using hnone.anywhere

theorem accept {kinds : List Kind} (hkinds : ∀ k ∈ kinds, Inner k) {f : Option Token → Parser β}
    (hf : ∀ o, Plain none (f o)) : Plain none (accept kinds >>= f) :=
  accepted (fun k hk => pass (hkinds k hk) fun t => hf (some t)) (hf none)

theorem acceptance {kinds : List Kind} (hkinds : ∀ k ∈ kinds, Inner k) :
    Plain none (Parse.accept kinds) := by
  simpa only [bind_pure] using accept hkinds pure

theorem expect {slot : Slot} (hslot : Inner slot.kind) : Plain none (expect slot) := by
  change Plain none (Parse.peek >>= fun k =>
    if k == slot.kind then Parse.advance else Parse.fail (.expected slot))
  refine peek fun k => ?_
  split
  next hk => exact advance (eq_of_beq hk ▸ hslot)
  next => exact (fail (by trivial)).anywhere

theorem after {slot : Slot} (hslot : Inner slot.kind) {f : Token → Parser β}
    (hf : ∀ t, Plain none (f t)) : Plain none (Parse.expect slot >>= f) := (expect hslot).bind hf

theorem unlessAt {stop : Kind} {absent : α} {p : Parser α} (hp : Plain none p) :
    Plain none (unlessAt stop absent p) := by
  change Plain none (Parse.peek >>= fun k => if k == stop then Pure.pure absent else p)
  refine peek fun k => ?_
  split
  · exact (pure absent).anywhere
  · exact hp.anywhere

end Plain

/-- A rule that comes to its end by passing a token. -/
def Ended (k : Option Kind) (p : Parser α) : Prop :=
  ∃ (β : Type) (q : Parser β) (slot : Slot) (f : β → α),
    Plain k q ∧ Inner slot.kind ∧ p = q >>= fun b => expect slot >>= fun _ => pure (f b)

theorem Ended.plain {k : Option Kind} {p : Parser α} (h : Ended k p) : Plain k p := by
  obtain ⟨β, q, slot, f, hq, hslot, rfl⟩ := h
  exact hq.bind fun b => .after hslot fun _ => .pure (f b)

/-- The grammar functions of expressions with this much fuel. -/
structure PlainExpr (n : Nat) : Prop where
  expr {room : Nat} (level : Level) : Plain none (expr n room level)
  operands {room : Nat} (level : Level) (left : Expr Unit) : Plain none (operands n room level left)
  calls {room : Nat} (callee : Expr Unit) : Plain none (calls n room callee)
  arguments {room : Nat} (count : Nat) : Plain none (arguments n room count)

theorem plain_numberLiteral : Plain (some .number) numberLiteral := by
  refine .pass (by decide) fun t => ?_
  cases readNumber? t.lexeme with
  | none => exact .halt _
  | some x => exact .pure _

theorem plain_primary (ih : PlainExpr n) : Plain none (expr (n + 1) (room + 1) .primary) := by
  rw [expr]
  refine .peek fun k => ?_
  split
  · exact .pass (by decide) fun _ => .pure _
  · exact .pass (by decide) fun _ => .pure _
  · exact .pass (by decide) fun _ => .pure _
  · exact plain_numberLiteral
  · exact .pass (by decide) fun _ => .pure _
  · exact .pass (by decide) fun _ => (ih.expr _).bind fun _ => .after (by decide) fun _ => .pure _
  · exact .pass (by decide) fun _ => .pure _
  · exact (Plain.fail (by decide)).anywhere

/-- The sign is blamed for what is no target. -/
theorem plain_assignment (ih : PlainExpr n) : Plain none (expr (n + 1) (room + 1) .assignment) := by
  rw [expr]
  refine (ih.expr _).bind fun target => .accepted (fun k hk => ?_) (.pure _)
  have hinner : Inner k := by
    obtain rfl := List.mem_singleton.1 hk
    decide
  cases target with
  | reference name use => exact .pass hinner fun _ => (ih.expr _).bind fun value => .pure _
  | _ =>
    exact .blame hinner (ih.expr .assignment) (by decide) _

theorem plain_conditional (ih : PlainExpr n) :
    Plain none (expr (n + 1) (room + 1) .conditional) := by
  rw [expr]
  refine (ih.expr _).bind fun condition => .accept (by decide) fun o => ?_
  cases o with
  | none => exact .pure _
  | some _ =>
    exact (ih.expr _).bind fun _ => .after (by decide) fun _ => (ih.expr _).bind fun _ => .pure _

theorem plain_unary (ih : PlainExpr n) : Plain none (expr (n + 1) (room + 1) .unary) := by
  rw [expr]
  refine .accept (by decide) fun o => ?_
  cases o with
  | none => exact ih.expr _
  | some op => exact (ih.expr _).bind fun _ => .pure _

theorem plain_expr_succ (ih : PlainExpr n) (level : Level) :
    Plain none (expr (n + 1) room level) := by
  cases room with
  | zero => exact .halt _
  | succ room => cases level with
    | assignment => exact plain_assignment ih
    | conditional => exact plain_conditional ih
    | unary => exact plain_unary ih
    | call => exact (ih.expr _).bind fun _ => ih.calls _
    | primary => exact plain_primary ih
    | _ => exact (ih.expr _).bind fun _ => ih.operands _ _

theorem plain_operands (ih : PlainExpr n) (level : Level) (left : Expr Unit) :
    Plain none (operands (n + 1) room level left) := by
  have hoperators : ∀ k ∈ level.operators, Inner k := by cases level <;> decide
  rw [operands]
  refine .accept hoperators fun o => ?_
  cases o with
  | none => exact .pure _
  | some op => exact (ih.expr _).bind fun _ => ih.operands _ _

theorem plain_calls (ih : PlainExpr n) (callee : Expr Unit) :
    Plain none (calls (n + 1) room callee) := by
  rw [calls_succ]
  refine .accept (by decide) fun o => ?_
  cases o with
  | none => exact .pure _
  | some _ =>
    exact (Plain.unlessAt (ih.arguments _)).bind fun _ => .after (by decide) fun _ => ih.calls _

theorem plain_arguments (ih : PlainExpr n) (count : Nat) :
    Plain none (arguments (n + 1) room count) := by
  rw [arguments_succ]
  refine (Plain.complainIf _ (.reportHere (by decide))).bind fun _ => (ih.expr _).bind fun _ =>
    .accept (by decide) fun o => ?_
  cases o with
  | none => exact .pure _
  | some _ => exact (ih.arguments _).bind fun _ => .pure _

theorem plainExpr (n : Nat) : PlainExpr n := by
  induction n with
  | zero => exact ⟨fun _ => .halt _, fun _ _ => .halt _, fun _ => .halt _, fun _ => .halt _⟩
  | succ n ih =>
    exact ⟨plain_expr_succ ih, plain_operands ih, plain_calls ih, plain_arguments ih⟩

theorem plain_expr (n : Nat) (level : Level) : Plain none (expr n room level) :=
  (plainExpr n).expr level

theorem plain_optional (n : Nat) : Plain none (some <$> expr n room .comma) :=
  (plain_expr n _).map _

theorem plain_parameters (n count : Nat) : Plain none (parameters n count) := by
  induction n generalizing count with
  | zero => exact .halt _
  | succ n ih =>
    rw [parameters_succ]
    refine (Plain.complainIf _ (.reportHere (by decide))).bind fun _ =>
      .after (by decide) fun _ => .accept (by decide) fun o => ?_
    cases o with
    | none => exact .pure _
    | some _ => exact (ih _).bind fun _ => .pure _

theorem plain_parameterList (n : Nat) : Plain none (parameterList n) :=
  .unlessAt (plain_parameters n 0)

theorem plain_initializer (n : Nat) : Plain none (initializer n room) :=
  .accept (by decide) fun o => by
    cases o with
    | none => exact .pure _
    | some _ => exact plain_optional n

theorem ended_varDeclaration (n : Nat) : Ended none (varDeclaration n room) := by
  rw [varDeclaration_eq]
  refine ⟨_, expect .varName >>= fun name => initializer n room >>= fun init => pure (name, init),
    .varEnd, fun p => .var p.1 p.2, ?_, by decide, ?_⟩
  · exact .after (by decide) fun name => (plain_initializer n).bind fun init => .pure _
  · simp only [bind_assoc, pure_bind]

theorem ended_expressionStatement (n : Nat) : Ended none (expressionStatement n room) :=
  ⟨_, expr n room .comma, .expressionEnd, .expression, plain_expr n _, by decide, rfl⟩

theorem ended_printStatement (n : Nat) : Ended none (printStatement n room) :=
  ⟨_, expr n room .comma, .printEnd, .print, plain_expr n _, by decide, rfl⟩

theorem ended_returnStatement (n : Nat) (keyword : Token) :
    Ended none (returnStatement n room keyword) := by
  rw [returnStatement_eq]
  exact ⟨_, unlessAt .semicolon none (some <$> expr n room .comma), .returnEnd, .give keyword,
    .unlessAt (plain_optional n), by decide, rfl⟩

/-- The keyword is blamed for standing in no loop. -/
theorem ended_jumpStatement {k : Kind} (hk : Inner k) (c : Context) (j : Jump) :
    Ended (some k) (advance >>= jumpStatement c j) := by
  refine ⟨_, blaming (pure ()) (fun _ => !c.inLoop) (.strayJump j), .jumpEnd j,
    fun p => .jump j p.1, .blaming hk (.pure _) trivial, by cases j <;> decide, ?_⟩
  simp only [blaming, bind_assoc, pure_bind]
  exact congrArg _ (funext fun keyword => jumpStatement_eq c j keyword)

theorem ended_parenthesized (n : Nat) {left right : Slot} (hleft : Inner left.kind)
    (hright : Inner right.kind) : Ended none (parenthesized n room left right) := by
  refine ⟨_, expect left >>= fun _ => expr n room .comma, right, id, ?_, hright, ?_⟩
  · exact .after hleft fun _ => plain_expr n _
  · simp only [bind_assoc, id]
    rfl

theorem plain_forInit (n : Nat) : Plain none (forInit n room) := by
  refine .peek fun k => ?_
  split
  · exact .pass (by decide) fun _ => (ended_varDeclaration n).plain.map _
  · exact .pass (by decide) fun _ => .pure _
  · exact ((ended_expressionStatement n).plain.map _).anywhere

theorem ended_forHead (n : Nat) : Ended none (forHead n room) := by
  rw [forHead_eq]
  refine ⟨_, expect .forOpen >>= fun _ => forInit n room >>= fun init =>
    unlessAt .semicolon (.literal (.bool true)) (expr n room .comma) >>= fun condition =>
    expect .forCondition >>= fun _ =>
    unlessAt .rightParen none (some <$> expr n room .comma) >>= fun step =>
    pure (ForHead.mk init condition step), .forClose, id, ?_, by decide, ?_⟩
  · exact .after (by decide) fun _ => (plain_forInit n).bind fun _ =>
      (Plain.unlessAt (plain_expr n _)).bind fun _ => .after (by decide) fun _ =>
      (Plain.unlessAt (plain_optional n)).bind fun _ => .pure _
  · simp only [bind_assoc, pure_bind, id]

end Scriptlet.Parse

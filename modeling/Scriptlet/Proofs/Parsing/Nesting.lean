import Scriptlet.Proofs.Parsing.Told
import Scriptlet.Proofs.Parsing.Reading

/-! How deep the trees of the parser are. A level that is counted makes one statement or, where a
loop gets a block of its own for what comes first, two; what is not counted has none inside. -/
namespace Scriptlet

variable {ρ : Type}

mutual

/-- How many statements are inside each other, this one counted. -/
def Stmt.nesting : Stmt ρ → Nat
  | .block body | .function _ _ body => Stmt.nestingAll body + 1
  | .ifThen _ body | .loop _ body | .doLoop body _ => body.nesting + 1
  | .ifElse _ first second | .loopStep _ first second => max first.nesting second.nesting + 1
  | .switch _ arms => arms.nesting + 1
  | .jump _ _ | .expression _ | .print _ | .give _ _ | .var _ _ => 1

def Stmt.nestingAll : List (Stmt ρ) → Nat
  | [] => 0
  | s :: ss => max s.nesting (Stmt.nestingAll ss)

def Arms.nesting : Arms ρ → Nat
  | .done => 0
  | .otherwise body => body.nesting
  | .case _ body rest => max body.nesting rest.nesting

end

theorem Stmt.nesting_pos (s : Stmt ρ) : 1 ≤ s.nesting := by
  cases s <;> simp [Stmt.nesting]

namespace Parse

/-- The statements that fit inside each other where so many levels are open. -/
def Context.levels (c : Context) : Nat := 2 * (maxNesting - c.depth)

variable {n room : Nat} {c : Context}

theorem Context.levels_eq (h : c.deeper.depth ≤ maxNesting) : c.levels = c.deeper.levels + 2 := by
  simp only [levels, deeper] at h ⊢
  omega

theorem gives_guardDepth (c : Context) : Gives (guardDepth c) fun _ => c.depth ≤ maxNesting := by
  intro s _ r h
  unfold guardDepth at h
  split at h
  next => cases h
  next hdepth => exact Nat.not_lt.1 hdepth

/-! Statements with nothing but expressions inside are one level. -/

theorem nesting_varDeclaration (n : Nat) :
    Gives (varDeclaration n room) fun s => s.nesting = 1 := by
  rw [varDeclaration_eq]
  exact .after fun _ => .after fun _ => .after fun _ => .pure rfl

theorem nesting_expressionStatement (n : Nat) :
    Gives (expressionStatement n room) fun s => s.nesting = 1 :=
  .after fun _ => .after fun _ => .pure rfl

theorem nesting_printStatement (n : Nat) : Gives (printStatement n room) fun s => s.nesting = 1 :=
  .after fun _ => .after fun _ => .pure rfl

theorem nesting_returnStatement (n : Nat) (keyword : Token) :
    Gives (returnStatement n room keyword) fun s => s.nesting = 1 := by
  rw [returnStatement_eq]
  exact .after fun _ => .after fun _ => .pure rfl

theorem nesting_jumpStatement (c : Context) (j : Jump) (keyword : Token) :
    Gives (jumpStatement c j keyword) fun s => s.nesting = 1 := by
  rw [jumpStatement_eq]
  exact .after fun _ => .after fun _ => .pure rfl

theorem nesting_forInit (n : Nat) :
    Gives (forInit n room) fun init => ∀ s ∈ init, s.nesting = 1 := by
  have hsome {p : Parser (Stmt Unit)} (hp : Gives p fun s => s.nesting = 1) :
      Gives (some <$> p) fun init => ∀ s ∈ init, s.nesting = 1 :=
    .map <| hp.mono fun s hs t ht => Option.some.inj ht ▸ hs
  refine .after fun k => ?_
  split
  · exact .after fun _ => hsome (nesting_varDeclaration n)
  · exact .after fun _ => .pure nofun
  · exact hsome (nesting_expressionStatement n)

theorem nesting_forHead (n : Nat) :
    Gives (forHead n room) fun head => ∀ s ∈ head.init, s.nesting = 1 := by
  rw [forHead_eq]
  exact .after fun _ => .bind (nesting_forInit n) fun _ hinit => .after fun _ => .after fun _ =>
    .after fun _ => .after fun _ => .pure hinit

/-- The block that a loop gets for its own variable is the second level. -/
theorem ForHead.nesting_loop {head : ForHead} (hinit : ∀ s ∈ head.init, s.nesting = 1)
    (body : Stmt Unit) : (head.loop body).nesting ≤ body.nesting + 2 := by
  have hbody := body.nesting_pos
  obtain ⟨init, condition, step⟩ := head
  cases init with
  | none =>
    cases step <;> simp only [ForHead.loop, Stmt.nesting] <;> omega
  | some init =>
    have hone : init.nesting = 1 := hinit init rfl
    cases step <;> simp only [ForHead.loop, Stmt.nesting, Stmt.nestingAll] <;> omega

/-- The grammar functions of statements with this much fuel keep to the room there is. Only where
there is none left, a declaration needs one level that it is not counted for. -/
structure Roomy (n : Nat) : Prop where
  declaration (c : Context) : Gives (declaration n c) fun d => ∀ s ∈ d, s.nesting ≤ max 1 c.levels
  function (c : Context) : Gives (function n c) fun s => s.nesting ≤ c.levels
  statement (c : Context) : Gives (statement n c) fun s => s.nesting ≤ c.levels
  block (c : Context) : Gives (block n c) fun body => Stmt.nestingAll body ≤ max 1 c.levels
  items (c : Context) : Gives (items n c) fun body => Stmt.nestingAll body ≤ max 1 c.levels
  arms (c : Context) : Gives (arms n c) fun as => as.nesting ≤ c.levels

theorem nestingAll_append (ss ts : List (Stmt ρ)) :
    Stmt.nestingAll (ss ++ ts) = max (Stmt.nestingAll ss) (Stmt.nestingAll ts) := by
  induction ss with
  | nil => simp [Stmt.nestingAll]
  | cons s ss ih => simp [Stmt.nestingAll, ih, Nat.max_assoc]

theorem nesting_unrecovered (ih : Roomy n) (c : Context) :
    Gives (unrecovered n c) fun s => s.nesting ≤ max 1 c.levels := by
  refine .after fun k => ?_
  split
  · exact .after fun _ => (ih.function c).mono fun s hs => Nat.le_trans hs (Nat.le_max_right ..)
  · exact .after fun _ => (nesting_varDeclaration n).mono fun s hs => hs ▸ Nat.le_max_left ..
  · exact (ih.statement c).mono fun s hs => Nat.le_trans hs (Nat.le_max_right ..)

theorem nesting_function (ih : Roomy n) (c : Context) :
    Gives (function (n + 1) c) fun s => s.nesting ≤ c.levels := by
  rw [function_succ]
  refine .after fun name => .after fun _ => .after fun params => .after fun _ => .after fun _ =>
    .bind (gives_guardDepth _) fun _ hdepth => .bind (ih.block _) fun body hbody => .pure ?_
  have hlevels : c.levels = c.function.levels + 2 := Context.levels_eq hdepth
  simp only [Stmt.nesting]
  omega

theorem nesting_ifStatement (ih : Roomy n) (c : Context) :
    Gives (ifStatement n c) fun s => s.nesting ≤ c.levels + 2 := by
  refine .after fun condition => .bind (ih.statement c) fun yes hyes => .after fun o => ?_
  cases o with
  | none =>
    refine .pure ?_
    simp only [Stmt.nesting]
    omega
  | some _ =>
    refine .bind (ih.statement c) fun no hno => .pure ?_
    simp only [Stmt.nesting]
    omega

theorem nesting_switchStatement (ih : Roomy n) (c : Context) :
    Gives (switchStatement n c) fun s => s.nesting ≤ c.levels + 2 := by
  refine .after fun subject => .after fun _ => .bind (ih.arms c) fun as has => .after fun _ =>
    .pure ?_
  simp only [Stmt.nesting]
  omega

theorem nesting_whileStatement (ih : Roomy n) (c : Context) :
    Gives (whileStatement n c) fun s => s.nesting ≤ c.levels + 2 :=
  .after fun _ => .bind (ih.statement c.loop) fun _ hbody => .pure (Nat.le_succ_of_le
    (Nat.succ_le_succ hbody))

theorem nesting_forStatement (ih : Roomy n) (c : Context) :
    Gives (forStatement n c) fun s => s.nesting ≤ c.levels + 2 :=
  .bind (nesting_forHead n) fun _ hinit => .bind (ih.statement c.loop) fun body hbody =>
    .pure (Nat.le_trans (ForHead.nesting_loop hinit body) (Nat.add_le_add_right hbody 2))

theorem nesting_doStatement (ih : Roomy n) (c : Context) :
    Gives (doStatement n c) fun s => s.nesting ≤ c.levels + 2 :=
  .bind (ih.statement c.loop) fun _ hbody => .after fun _ => .after fun _ => .after fun _ =>
    .pure (Nat.le_succ_of_le (Nat.succ_le_succ hbody))

theorem nesting_form (ih : Roomy n) (c : Context) :
    Gives (form n c) fun s => s.nesting ≤ c.levels + 2 := by
  have hflat {p : Parser (Stmt Unit)} (hp : Gives p fun s => s.nesting = 1) :
      Gives p fun s => s.nesting ≤ c.levels + 2 := hp.mono fun s hs => by omega
  refine .after fun k => ?_
  split
  · exact .after fun _ => hflat (nesting_printStatement n)
  · refine .after fun _ => .bind (ih.block c) fun body hbody => .pure ?_
    simp only [Stmt.nesting]
    omega
  · exact .after fun _ => nesting_ifStatement ih c
  · exact .after fun _ => nesting_switchStatement ih c
  · exact .after fun _ => nesting_whileStatement ih c
  · exact .after fun _ => nesting_forStatement ih c
  · exact .after fun _ => nesting_doStatement ih c
  · exact .after fun _ => hflat (nesting_jumpStatement c _ _)
  · exact .after fun _ => hflat (nesting_jumpStatement c _ _)
  · exact .after fun _ => hflat (nesting_returnStatement n _)
  · exact hflat (nesting_expressionStatement n)

/-- A level is counted before anything is read in it. -/
theorem nesting_statement (ih : Roomy n) (c : Context) :
    Gives (statement (n + 1) c) fun s => s.nesting ≤ c.levels := by
  rw [statement_succ]
  refine .bind (gives_guardDepth _) fun _ hdepth => ?_
  rw [Context.levels_eq hdepth]
  exact nesting_form ih c.deeper

theorem nesting_items (ih : Roomy n) (c : Context) :
    Gives (items (n + 1) c) fun body => Stmt.nestingAll body ≤ max 1 c.levels := by
  rw [items]
  refine .after fun k => ?_
  split
  · exact .pure (Nat.zero_le _)
  · exact .pure (Nat.zero_le _)
  · refine .bind (ih.declaration c) fun first hfirst => .bind (ih.items c) fun rest hrest =>
      .pure ?_
    rw [nestingAll_append]
    refine Nat.max_le.2 ⟨?_, hrest⟩
    cases first with
    | none => exact Nat.zero_le _
    | some s => simpa [Stmt.nestingAll] using hfirst s rfl

theorem nesting_arms (ih : Roomy n) (c : Context) :
    Gives (arms (n + 1) c) fun as => as.nesting ≤ c.levels := by
  rw [arms]
  refine .after fun k => ?_
  split
  · exact .after fun _ => .after fun _ => .after fun _ => .bind (ih.statement c) fun body hbody =>
      .bind (ih.arms c) fun rest hrest => .pure (Nat.max_le.2 ⟨hbody, hrest⟩)
  · exact .after fun _ => .after fun _ => .bind (ih.statement c) fun body hbody => .pure hbody
  · exact .pure (Nat.zero_le _)

theorem roomy : (n : Nat) → Roomy n
  | 0 => ⟨fun _ => .halt, fun _ => .halt, fun _ => .halt, fun _ => .halt, fun _ => .halt,
    fun _ => .halt⟩
  | n + 1 =>
    have ih := roomy n
    { declaration := fun c => by
        rw [declaration_succ]
        exact .recovering (nesting_unrecovered ih c) _
      function := nesting_function ih
      statement := nesting_statement ih
      block := fun c => .bind (ih.items c.block) fun _ hbody => .after fun _ => .pure hbody
      items := nesting_items ih
      arms := nesting_arms ih }

theorem nesting_program (n : Nat) (s : State) :
    ∀ st ∈ (program n room s).1, st.nesting ≤ 2 * maxNesting := by
  have hnone : ∀ st ∈ ([] : List (Stmt Unit)), st.nesting ≤ 2 * maxNesting := by simp
  induction n generalizing s with
  | zero => exact hnone
  | succ n ih =>
    unfold program
    split
    · exact hnone
    · cases hfirst : declaration n (.top room) s with
      | bad r => exact hnone
      | halt cause r => exact hnone
      | ok d r =>
        intro st hst
        rcases List.mem_append.1 hst with hd | hrest
        · exact (roomy n).declaration (.top room) s d r hfirst st (Option.mem_toList.1 hd)
        · exact ih r st hrest

end Parse

open Parse

/-- Whatever was reported, even that the nesting is too deep, no statement that the parser returns
has more levels than twice the number of those it counts. -/
theorem nesting_le {room : Nat} {tokens : List Token} {parsed : Parsed}
    (h : parse room tokens = .ok parsed) :
    ∀ s ∈ parsed.statements, s.nesting ≤ 2 * maxNesting := by
  obtain ⟨s, -, hstatements, -⟩ := program_of_parse h
  rw [hstatements]
  exact nesting_program _ s

/-- So many loops around a block with a declaration, each with a variable of its own, that there is
no room for another one. -/
theorem nesting_le_loops :
    let token (kind : Kind) (lexeme : String) : Token := ⟨kind, lexeme, ⟨1, 1⟩⟩
    let head := [token .kwFor "for", token .leftParen "(", token .kwVar "var",
      token .identifier "i", token .semicolon ";", token .semicolon ";", token .rightParen ")"]
    let body := [token .leftBrace "\x7b", token .kwVar "var", token .identifier "i",
      token .semicolon ";", token .rightBrace "\x7d", token .eof ""]
    let tokens := (List.replicate 254 head).flatten ++ body
    ∃ parsed, parse 0 tokens = .ok parsed ∧ parsed.statements.map Stmt.nesting = [2 * maxNesting] ∧
      ∀ s ∈ parsed.statements, s.nesting ≤ 2 * maxNesting := by
  intro token head body tokens
  have hrun : (parse 0 tokens).toOption.map (·.statements.map Stmt.nesting) =
      some [2 * maxNesting] := by decide +kernel
  cases hparse : parse 0 tokens with
  | error why =>
    rw [hparse] at hrun
    cases hrun
  | ok parsed =>
    rw [hparse] at hrun
    exact ⟨parsed, rfl, Option.some.inj hrun, nesting_le hparse⟩

end Scriptlet

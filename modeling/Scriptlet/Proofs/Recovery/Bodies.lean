import Scriptlet.Proofs.Parsing.Told
import Scriptlet.Proofs.Recovery.Balance

/-! Where the blocks and the bodies of functions come from that a program is parsed into: each was
read through the brace that matches its opening one. -/
namespace Scriptlet

variable {ρ : Type}

mutual

/-- The lists of statements that blocks and functions consist of, those inside included. -/
def Stmt.bodies : Stmt ρ → List (List (Stmt ρ))
  | .block body | .function _ _ body => body :: Stmt.bodiesIn body
  | .doLoop body _ | .ifThen _ body | .loop _ body => body.bodies
  | .ifElse _ first second | .loopStep _ first second => first.bodies ++ second.bodies
  | .switch _ arms => arms.bodies
  | .jump _ _ | .expression _ | .print _ | .give _ _ | .var _ _ => []

def Stmt.bodiesIn : List (Stmt ρ) → List (List (Stmt ρ))
  | [] => []
  | s :: ss => s.bodies ++ Stmt.bodiesIn ss

def Arms.bodies : Arms ρ → List (List (Stmt ρ))
  | .done => []
  | .otherwise body => body.bodies
  | .case _ body rest => body.bodies ++ rest.bodies

end

theorem Stmt.bodiesIn_append (ss ss' : List (Stmt ρ)) :
    Stmt.bodiesIn (ss ++ ss') = Stmt.bodiesIn ss ++ Stmt.bodiesIn ss' := by
  induction ss with
  | nil => rfl
  | cons s ss ih => simp [Stmt.bodiesIn, ih]

namespace Parse

variable {α β : Type} {n room : Nat} {s r : State} {t : Token} {tokens : List Token}
  {body : List (Stmt Unit)}

/-- The parser is past the token, which stands in the program. Errors behind it are skipped. -/
def Past (tokens : List Token) (t : Token) (s : State) : Prop :=
  ∃ errors, (t :: (errors ++ s.stream)) <:+ tokens ∧ ∀ e ∈ errors, e.kind = .error

/-- Read after a brace, through the one that matches it. -/
def Braced (tokens : List Token) (body : List (Stmt Unit)) : Prop :=
  ∃ brace n c s r, brace.kind = .leftBrace ∧ Past tokens brace s ∧ block n c s = .ok body r ∧
    Closes 0 s.stream r.stream

/-- What a loop that first declares or computes something is put in stands in no braces. -/
def Looped (tokens : List Token) (body : List (Stmt Unit)) : Prop :=
  ∃ keyword n c s r, keyword.kind = .kwFor ∧ Past tokens keyword s ∧
    forStatement n c s = .ok (.block body) r

def Founded (tokens : List Token) (bodies : List (List (Stmt Unit))) : Prop :=
  ∀ body ∈ bodies, Braced tokens body ∨ Looped tokens body

theorem founded_append {xs ys : List (List (Stmt Unit))} :
    Founded tokens (xs ++ ys) ↔ Founded tokens xs ∧ Founded tokens ys :=
  List.forall_mem_append

theorem founded_nil : Founded tokens [] := by simp [Founded]

/-- Among these tokens the parser reads only such values. -/
def Yields (tokens : List Token) (p : Parser α) (P : α → Prop) : Prop :=
  ∀ s a r, s.stream <:+ tokens → p s = .ok a r → P a

theorem suffix_invariant (tokens : List Token) :
    Invariant fun s => s.stream <:+ tokens where
  report _ _ hs := hs
  calm hs := hs
  pull hs _ hr := ((State.pull_suffix hr).trans (State.rest_suffix _)).trans hs

theorem Elementary.suffix {p : Parser α} {a : α} (hp : Elementary p) (hs : s.stream <:+ tokens)
    (h : p s = .ok a r) : r.stream <:+ tokens := by
  have hkeeps := hp.keeps (suffix_invariant tokens) hs
  rwa [h] at hkeeps

namespace Yields

variable {P : α → Prop} {Q : β → Prop}

theorem bind {p : Parser α} {f : α → Parser β} (hp : Elementary p) (hpP : Yields tokens p P)
    (hf : ∀ a, P a → Yields tokens (f a) Q) : Yields tokens (p >>= f) Q := by
  intro s b r hs h
  obtain ⟨a, u, hu, hb⟩ := bind_eq_ok.1 h
  exact hf a (hpP s a u hs hu) u b r (hp.suffix hs hu) hb

/-- Of the first value nothing has to be known. -/
theorem after {p : Parser α} {f : α → Parser β} (hp : Elementary p)
    (hf : ∀ a, Yields tokens (f a) Q) : Yields tokens (p >>= f) Q :=
  bind (P := fun _ => True) hp (fun _ _ _ _ _ => trivial) fun a _ => hf a

theorem pure {a : α} (h : P a) : Yields tokens (pure a) P := by
  intro s b r _ hb
  obtain ⟨rfl, -⟩ := pure_eq_ok.1 hb
  exact h

theorem halt (cause : Halt) : Yields tokens (halt cause : Parser α) P := by
  intro s b r _ h
  cases h

theorem map {p : Parser α} {f : α → β} (hp : Elementary p)
    (hpQ : Yields tokens p fun a => Q (f a)) : Yields tokens (f <$> p) Q :=
  bind hp hpQ fun _ h => pure h

theorem recovering {inBlock : Bool} {p : Parser α} {R : Option α → Prop}
    (hp : Yields tokens p fun a => R (some a)) (hnone : R none) :
    Yields tokens (recovering inBlock p) R := by
  intro s d r hs h
  unfold Parse.recovering at h
  cases hps : p s.calm with
  | ok a u =>
    rw [hps] at h
    obtain ⟨rfl, -⟩ := Result.ok.inj h
    exact hp s.calm a u hs hps
  | halt cause u =>
    rw [hps] at h
    cases h
  | bad u =>
    rw [hps] at h
    cases hu : u.recover inBlock 0 with
    | none => simp [hu] at h
    | some v =>
      simp only [hu] at h
      obtain ⟨rfl, -⟩ := Result.ok.inj h
      exact hnone

end Yields

theorem advance_past {a : Token} (hs : s.stream <:+ tokens) (hend : s.current.kind ≠ .eof)
    (h : advance s = .ok a r) : Past tokens s.current r := by
  have hatEnd : s.atEnd = false := by simp [State.atEnd, hend]
  cases hpull : s.pull with
  | none => simp [advance, hatEnd, hpull] at h
  | some u =>
    simp only [advance, hatEnd, hpull, Bool.false_eq_true, if_false, Result.ok.injEq] at h
    obtain ⟨-, rfl⟩ := h
    obtain ⟨errors, hrest, herrors⟩ := State.pullFrom_skips hpull
    exact ⟨errors, by rw [← hrest]; exact hs, herrors⟩

theorem Past.suffix (h : Past tokens t s) : s.stream <:+ tokens := by
  obtain ⟨errors, hsuffix, -⟩ := h
  exact ((List.suffix_append errors _).trans (List.suffix_cons t _)).trans hsuffix

/-- A statement without blocks. -/
def Bodiless (p : Parser (Stmt Unit)) : Prop :=
  ∀ tokens, Yields tokens p fun st => st.bodies = []

/-- Only one part of the statement is read, and the token that closes it. -/
theorem Bodiless.closing {p : Parser α} {slot : Slot} {f : α → Stmt Unit} (hp : Elementary p)
    (hf : ∀ a, (f a).bodies = []) :
    Bodiless (p >>= fun a => expect slot >>= fun _ => pure (f a)) :=
  fun _ => .after hp fun a => .after (.expect slot) fun _ => .pure (hf a)

theorem bodiless_varDeclaration (n : Nat) : Bodiless (varDeclaration n room) := fun _ => by
  rw [varDeclaration_eq]
  exact .after (.expect _) fun _ => .after (elementary_initializer n) fun _ =>
    .after (.expect _) fun _ => .pure rfl

theorem bodiless_expressionStatement (n : Nat) : Bodiless (expressionStatement n room) :=
  .closing (elementary_expr n _) fun _ => rfl

theorem bodiless_printStatement (n : Nat) : Bodiless (printStatement n room) :=
  .closing (elementary_expr n _) fun _ => rfl

theorem bodiless_returnStatement (n : Nat) (keyword : Token) :
    Bodiless (returnStatement n room keyword) := by
  rw [returnStatement_eq]
  exact .closing (.unlessAt (elementary_optional n)) fun _ => rfl

theorem bodiless_jumpStatement (c : Context) (j : Jump) (keyword : Token) :
    Bodiless (jumpStatement c j keyword) := by
  rw [jumpStatement_eq]
  exact .closing (.complainIf _ (.report _ _)) fun _ => rfl

theorem yields_forHead (n : Nat) :
    Yields tokens (forHead n room) fun head => ∀ init ∈ head.init, init.bodies = [] := by
  have hinit : Yields tokens (forInit n room) fun init => ∀ st ∈ init, st.bodies = [] := by
    refine .after .peek fun k => ?_
    split
    · exact .after .advance fun _ => .map (elementary_varDeclaration n)
        fun s st r hs h => by simpa using bodiless_varDeclaration n tokens s st r hs h
    · exact .after .advance fun _ => .pure (by simp)
    · exact .map (elementary_expressionStatement n)
        fun s st r hs h => by simpa using bodiless_expressionStatement n tokens s st r hs h
  rw [forHead_eq]
  exact .after (.expect _) fun _ => .bind (elementary_forInit n) hinit fun init h =>
    .after (.unlessAt (elementary_expr n _)) fun _ => .after (.expect _) fun _ =>
    .after (.unlessAt (elementary_optional n)) fun _ => .after (.expect _) fun _ => .pure h

/-- Among these tokens the parser reads statements whose blocks all come from braces, or from the
head of a loop. -/
def Founding (tokens : List Token) (p : Parser (Stmt Unit)) : Prop :=
  Yields tokens p fun st => Founded tokens st.bodies

theorem Bodiless.founding {p : Parser (Stmt Unit)} (h : Bodiless p) : Founding tokens p := by
  intro s st r hs hst
  have hnone : st.bodies = [] := h tokens s st r hs hst
  rw [hnone]
  exact founded_nil

theorem Founding.pass {p : Parser (Stmt Unit)} (hp : Founding tokens p) :
    Founding tokens (advance >>= fun _ => p) := .after .advance fun _ => hp

/-- The grammar functions of statements with this much fuel, among these tokens. -/
structure FoundingStmt (tokens : List Token) (n : Nat) : Prop where
  declaration (c : Context) :
    Yields tokens (declaration n c) fun d => Founded tokens (Stmt.bodiesIn d.toList)
  function (c : Context) : Founding tokens (function n c)
  statement (c : Context) : Founding tokens (statement n c)
  block (c : Context) : Yields tokens (block n c) fun ss => Founded tokens (Stmt.bodiesIn ss)
  items (c : Context) : Yields tokens (items n c) fun ss => Founded tokens (Stmt.bodiesIn ss)

theorem founded_block (hswitch : Unswitched tokens) (ih : FoundingStmt tokens n) {c : Context}
    {brace : Token} (hbrace : brace.kind = .leftBrace) (hpast : Past tokens brace s)
    (h : block n c s = .ok body r) : Founded tokens (body :: Stmt.bodiesIn body) := by
  have hshuts := (balancingStmt n).block c s fun t ht => hswitch t (hpast.suffix.subset ht)
  rw [h] at hshuts
  refine List.forall_mem_cons.2 ⟨.inl ?_, ih.block c s body r hpast.suffix h⟩
  exact ⟨brace, n, c, s, r, hbrace, hpast, h, hshuts⟩

theorem founding_function (hswitch : Unswitched tokens) (ih : FoundingStmt tokens n) (c : Context) :
    Founding tokens (function (n + 1) c) := by
  rw [function_succ]
  refine .after (.expect _) fun name => .after (.expect _) fun _ =>
    .after (.unlessAt (elementary_parameters n 0)) fun params => .after (.expect _) fun _ => ?_
  intro s st r hs h
  obtain ⟨brace, u, hu, h⟩ := bind_eq_ok.1 h
  obtain ⟨_, v, hv, h⟩ := bind_eq_ok.1 h
  obtain ⟨body, w, hw, h⟩ := bind_eq_ok.1 h
  obtain ⟨rfl, -⟩ := pure_eq_ok.1 h
  obtain ⟨-, rfl⟩ := guardDepth_sound hv
  by_cases hk : s.current.kind = .leftBrace
  · rw [expect_of_kind hk] at hu
    exact founded_block hswitch ih hk (advance_past hs (by simp [hk]) hu) hw
  · rw [expect_fails hk] at hu
    cases hu

theorem founded_forStatement (ih : FoundingStmt tokens n) {c : Context} {keyword : Token}
    (hkeyword : keyword.kind = .kwFor) (hpast : Past tokens keyword s) {st : Stmt Unit}
    (h : forStatement n c s = .ok st r) : Founded tokens st.bodies := by
  have hfor := h
  obtain ⟨head, u, hu, h⟩ := bind_eq_ok.1 h
  obtain ⟨body, v, hv, h⟩ := bind_eq_ok.1 h
  obtain ⟨rfl, -⟩ := pure_eq_ok.1 h
  have hbody := ih.statement c.loop u body _ ((elementary_forHead n).suffix hpast.suffix hu) hv
  have hinit := yields_forHead n s head u hpast.suffix hu
  obtain ⟨init, condition, step⟩ := head
  cases init with
  | none => cases step <;> simpa [ForHead.loop, Stmt.bodies] using hbody
  | some init =>
    refine List.forall_mem_cons.2 ⟨.inr ⟨keyword, n, c, s, _, hkeyword, hpast, hfor⟩, ?_⟩
    change Founded tokens (Stmt.bodiesIn [init, _])
    cases step <;> simpa [Stmt.bodiesIn, Stmt.bodies, hinit init rfl] using hbody

theorem founding_ifStatement (ih : FoundingStmt tokens n) (c : Context) :
    Founding tokens (ifStatement n c) := by
  have hstatement := (elementaryStmt n).statement c
  refine .after (elementary_parenthesized n _ _) fun _ =>
    .bind hstatement (ih.statement c) fun first hfirst => .after (.accept _) fun o => ?_
  cases o with
  | none => exact .pure hfirst
  | some _ =>
    exact .bind hstatement (ih.statement c) fun second hsecond =>
      .pure (founded_append.2 ⟨hfirst, hsecond⟩)

theorem founding_whileStatement (ih : FoundingStmt tokens n) (c : Context) :
    Founding tokens (whileStatement n c) :=
  .after (elementary_parenthesized n _ _) fun _ =>
    .bind ((elementaryStmt n).statement _) (ih.statement _) fun _ hbody => .pure hbody

theorem founding_doStatement (ih : FoundingStmt tokens n) (c : Context) :
    Founding tokens (doStatement n c) :=
  .bind ((elementaryStmt n).statement _) (ih.statement _) fun _ hbody => .after (.expect _) fun _ =>
    .after (elementary_parenthesized n _ _) fun _ => .after (.expect _) fun _ => .pure hbody

theorem founding_form (hswitch : Unswitched tokens) (ih : FoundingStmt tokens n) (c : Context) :
    Founding tokens (form n c) := by
  intro s st r hs h
  rw [form, peek_bind] at h
  generalize hk : s.current.kind = k at h
  split at h
  · exact (bodiless_printStatement n).founding.pass s st r hs h
  · obtain ⟨_, u, hu, h⟩ := bind_eq_ok.1 h
    obtain ⟨body, v, hv, h⟩ := bind_eq_ok.1 h
    obtain ⟨rfl, -⟩ := pure_eq_ok.1 h
    exact founded_block hswitch ih hk (advance_past hs (by simp [hk]) hu) hv
  · exact (founding_ifStatement ih c).pass s st r hs h
  · exact absurd hk (hswitch _ (hs.subset (List.mem_cons_self ..)))
  · exact (founding_whileStatement ih c).pass s st r hs h
  · obtain ⟨_, u, hu, h⟩ := bind_eq_ok.1 h
    exact founded_forStatement ih hk (advance_past hs (by simp [hk]) hu) h
  · exact (founding_doStatement ih c).pass s st r hs h
  · exact Yields.after .advance (fun _ => (bodiless_jumpStatement c _ _).founding) s st r hs h
  · exact Yields.after .advance (fun _ => (bodiless_jumpStatement c _ _).founding) s st r hs h
  · exact Yields.after .advance (fun _ => (bodiless_returnStatement n _).founding) s st r hs h
  · exact (bodiless_expressionStatement n).founding s st r hs h

theorem founding_unrecovered (ih : FoundingStmt tokens n) (c : Context) :
    Founding tokens (unrecovered n c) :=
  .after .peek fun k => by
    split
    · exact (ih.function c).pass
    · exact (bodiless_varDeclaration n).founding.pass
    · exact ih.statement c

theorem founding_items (ih : FoundingStmt tokens n) (c : Context) :
    Yields tokens (items (n + 1) c) fun ss => Founded tokens (Stmt.bodiesIn ss) := by
  rw [items]
  refine .after .peek fun k => ?_
  split
  · exact .pure founded_nil
  · exact .pure founded_nil
  · refine .bind ((elementaryStmt n).declaration c) (ih.declaration c) fun first hfirst =>
      .bind ((elementaryStmt n).items c) (ih.items c) fun rest hrest => .pure ?_
    rw [Stmt.bodiesIn_append]
    exact founded_append.2 ⟨hfirst, hrest⟩

theorem foundingStmt (hswitch : Unswitched tokens) (n : Nat) : FoundingStmt tokens n := by
  induction n with
  | zero =>
    exact ⟨fun _ => .halt _, fun _ => .halt _, fun _ => .halt _, fun _ => .halt _, fun _ => .halt _⟩
  | succ n ih =>
    refine ⟨fun c => ?_, founding_function hswitch ih, fun c => ?_, fun c => ?_, founding_items ih⟩
    · rw [declaration_succ]
      refine .recovering (fun s st r hs h => ?_) founded_nil
      simpa [Stmt.bodiesIn] using founding_unrecovered ih c s st r hs h
    · rw [statement_succ]
      exact .after (.guardDepth _) fun _ => founding_form hswitch ih _
    · rw [block]
      exact .bind ((elementaryStmt n).items _) (ih.items _) fun ss hss =>
        .after (.expect _) fun _ => .pure hss

theorem program_founded (hswitch : Unswitched tokens) (n : Nat) (hs : s.stream <:+ tokens) :
    Founded tokens (Stmt.bodiesIn (program n room s).1) := by
  induction n generalizing s with
  | zero => exact founded_nil
  | succ n ih =>
    unfold program
    split
    · exact founded_nil
    · cases hd : declaration n (.top room) s with
      | bad r | halt cause r => exact founded_nil
      | ok d r =>
        simp only [Stmt.bodiesIn_append]
        exact founded_append.2 ⟨(foundingStmt hswitch n).declaration (.top room) s d r hs hd,
          ih (((elementaryStmt n).declaration (.top room)).suffix hs hd)⟩

/-- Without a switch, what a block was read from is balanced, up to its brace, whatever was wrong in
it, and that is what each block and each body of a function in the tree was read from. Only what a
loop is put in that declares or computes something first has no braces. What is given up is balanced
too, unless the program ends in it; a brace that closes none is passed at top level only. -/
theorem blocks_close_at_their_brace {room : Nat} {tokens : List Token}
    (hswitch : Unswitched tokens) :
    (∀ n c s body r, s.stream <:+ tokens → block n c s = .ok body r →
      Closes 0 s.stream r.stream) ∧
    (∀ parsed, parse room tokens = .ok parsed → ∀ body ∈ Stmt.bodiesIn parsed.statements,
      Braced tokens body ∨ Looped tokens body) ∧
    (∀ n c s d r, s.stream <:+ tokens → declaration n c s = .ok d r →
      Leads 0 0 s.stream r.stream ∨
      d = none ∧ r.atEnd = true ∧ (c.inBlock = true → Climbs 0 0 s.stream r.stream) ∨
      d = none ∧ c.inBlock = false ∧ Closes 0 s.stream r.stream) := by
  have hunswitched {s : State} (hs : s.stream <:+ tokens) : Unswitched s.stream :=
    fun t ht => hswitch t (hs.subset ht)
  refine ⟨fun n c s body r hs h => ?_, fun parsed h => ?_, fun n c s d r hs h => ?_⟩
  · have hshuts := (balancingStmt n).block c s (hunswitched hs)
    rwa [h] at hshuts
  · obtain ⟨s, hstart, hstatements, -⟩ := program_of_parse h
    rw [hstatements]
    exact program_founded hswitch _ (State.pullFrom_suffix hstart)
  · have hsettles := (balancingStmt n).declaration c (hunswitched hs)
    rw [h] at hsettles
    obtain hleads | ⟨hnone, hend | ⟨htop, hcloses⟩⟩ := hsettles
    · exact .inl hleads
    · refine .inr (.inl ⟨hnone, hend, fun hblock => ?_⟩)
      have hrises := (risingStmt n).declaration hblock s
      rwa [h] at hrises
    · exact .inr (.inr ⟨hnone, htop, hcloses⟩)

/-- Of three errors one is a brace too many. -/
theorem blocks_close_at_their_brace_scraps :
    ∃ tokens parsed, tokens = scan "\x7b var 1; \x7b print \x7d \x7d \x7d" ∧
      parse 0 tokens = .ok parsed ∧ parsed.reports.length = 3 ∧
      (Stmt.bodiesIn parsed.statements).length = 2 ∧
      ∀ body ∈ Stmt.bodiesIn parsed.statements, Braced tokens body ∨ Looped tokens body := by
  let tokens := scan "\x7b var 1; \x7b print \x7d \x7d \x7d"
  have hswitch : Unswitched tokens := by
    unfold Unswitched
    decide +kernel
  have hcounts : (parse 0 tokens).toOption.map
      (fun p => (p.reports.length, (Stmt.bodiesIn p.statements).length)) = some (3, 2) := by
    decide +kernel
  cases hparse : parse 0 tokens with
  | error fault =>
    rw [hparse] at hcounts
    cases hcounts
  | ok parsed =>
    rw [hparse] at hcounts
    obtain ⟨hreports, hbodies⟩ := Prod.mk.inj (Option.some.inj hcounts)
    exact ⟨tokens, parsed, rfl, hparse, hreports, hbodies,
      (blocks_close_at_their_brace hswitch).2.1 parsed hparse⟩

end Parse
end Scriptlet

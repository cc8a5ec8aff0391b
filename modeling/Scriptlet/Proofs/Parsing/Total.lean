import Scriptlet.Proofs.Parsing.Progress
import Scriptlet.Proofs.Scanning.Tokens

/-! Parsing comes to an end on all tokens: each declaration passes a token, also when it recovers
from an error. Tokens with an end among them, whose numbers can be read, have a parse, whatever else
is wrong with them. -/
namespace Scriptlet
namespace Parse

variable {α β : Type} {s : State} {m n room : Nat}

theorem total_optional (h : rulesPerToken * m + 11 < n) :
    Progressing m (some <$> expr n room .comma) := (total_expr h).map some

theorem total_parameters (count : Nat) (h : rulesPerToken * m < n) :
    Progressing m (parameters n count) := by
  induction n generalizing m count with
  | zero => exact absurd h (Nat.not_lt_zero _)
  | succ n ih =>
    simp only [rulesPerToken] at h ih
    rw [parameters_succ]
    refine (Total.complainIf _ (.reportHere _)).progressing fun _ => ?_
    refine (Progressing.expect _).bind fun first m₁ hm₁ => ?_
    refine .accept (by decide) (.pure _) fun m₂ hm₂ comma => ?_
    exact (ih _ (by omega)).total.bind fun rest => .pure _

theorem total_initializer (h : rulesPerToken * m < n) : Total m (initializer n room) := by
  simp only [rulesPerToken] at h
  refine .accept (by decide) (.pure _) fun m₁ hm₁ equals => ?_
  exact (total_optional (by simp only [rulesPerToken]; omega)).total

theorem total_varDeclaration (h : rulesPerToken * m < n) :
    Progressing m (varDeclaration n room) := by
  simp only [rulesPerToken] at h
  rw [varDeclaration_eq]
  refine (Progressing.expect _).bind fun name m₁ hm₁ => ?_
  refine (total_initializer (by simp only [rulesPerToken]; omega)).bind fun init => ?_
  exact (Progressing.expect _).total.bind fun _ => .pure _

theorem total_expressionStatement (h : rulesPerToken * m + 11 < n) :
    Progressing m (expressionStatement n room) :=
  (total_expr h).bind fun _ _ _ => (Progressing.expect _).total.bind fun _ => .pure _

theorem total_printStatement (h : rulesPerToken * m + 11 < n) :
    Progressing m (printStatement n room) :=
  (total_expr h).bind fun _ _ _ => (Progressing.expect _).total.bind fun _ => .pure _

theorem total_returnStatement (keyword : Token) (h : rulesPerToken * m + 11 < n) :
    Total m (returnStatement n room keyword) := by
  rw [returnStatement_eq]
  have hvalue : Total m (unlessAt .semicolon none (some <$> expr n room .comma)) :=
    .unlessAt (total_optional h).total
  exact hvalue.bind fun _ => (Progressing.expect _).total.bind fun _ => .pure _

theorem total_jumpStatement (c : Context) (j : Jump) (keyword : Token) :
    Total m (jumpStatement c j keyword) := by
  rw [jumpStatement_eq]
  exact (Total.complainIf _ (.report _ _)).bind fun _ =>
    (Progressing.expect _).total.bind fun _ => .pure _

theorem total_parenthesized (left right : Slot) (h : rulesPerToken * m < n) :
    Progressing m (parenthesized n room left right) := by
  simp only [rulesPerToken] at h
  refine (Progressing.expect _).bind fun _ m₁ hm₁ => ?_
  refine (total_expr (by simp only [rulesPerToken]; omega)).total.bind fun inner => ?_
  exact (Progressing.expect _).total.bind fun _ => .pure _

theorem total_forInit (h : rulesPerToken * m + 11 < n) : Total m (forInit n room) := by
  intro s hm
  simp only [rulesPerToken] at h
  rw [forInit, peek_bind]
  generalize hk : s.current.kind = k
  split
  · refine (advance_bind_within (by simp [hk]) hm fun m₁ hm₁ _ => ?_).mono s.rest_suffix
      s.rest_suffix
    exact ((total_varDeclaration (by simp only [rulesPerToken]; omega)).map some).total
  · refine (advance_bind_within (by simp [hk]) hm fun m₁ hm₁ _ => ?_).mono s.rest_suffix
      s.rest_suffix
    exact .pure _
  · exact ((total_expressionStatement h).map some).total s hm

theorem total_forHead (h : rulesPerToken * m < n) : Progressing m (forHead n room) := by
  simp only [rulesPerToken] at h
  rw [forHead_eq]
  refine (Progressing.expect _).bind fun _ m₁ hm₁ => ?_
  have hm : rulesPerToken * m₁ + 11 < n := by simp only [rulesPerToken]; omega
  refine (total_forInit hm).bind fun init => ?_
  refine (Total.unlessAt (total_expr hm).total).bind fun condition => ?_
  refine (Progressing.expect _).total.bind fun _ => ?_
  refine (Total.unlessAt (total_optional hm).total).bind fun step => ?_
  exact (Progressing.expect _).total.bind fun _ => .pure _

/-- The starters of statements that are no declarations. Whoever sees one passes it. -/
def formKeywords : List Kind :=
  [.kwDo, .kwFor, .kwIf, .kwPrint, .kwReturn, .kwSwitch, .kwWhile]

/-- The grammar functions of statements with this much fuel. -/
structure TotalStmt (n : Nat) : Prop where
  declaration {m : Nat} (c : Context) (h : rulesPerToken * m + 13 < n) {s : State}
    (hm : s.rest.length ≤ m) (heof : s.current.kind ≠ .eof)
    (hbrace : c.inBlock = true → s.current.kind ≠ .rightBrace) :
    (declaration n c s).Within s.rest s.rest
  function {m : Nat} (c : Context) (h : rulesPerToken * m < n) : Progressing m (function n c)
  statement {m : Nat} (c : Context) (h : rulesPerToken * m + 12 < n) {s : State}
    (hm : s.rest.length ≤ m) :
    (statement n c s).Within s.rest
      (if s.current.kind ∈ formKeywords then s.rest else s.stream)
  block {m : Nat} (c : Context) (h : rulesPerToken * m + 15 < n) : Progressing m (block n c)
  items {m : Nat} (c : Context) (h : rulesPerToken * m + 14 < n) : Total m (items n c)
  arms {m : Nat} (c : Context) (h : rulesPerToken * m < n) : Total m (arms n c)

theorem progressing_statement (ih : TotalStmt n) (c : Context)
    (h : rulesPerToken * m + 12 < n) : Progressing m (statement n c) := by
  intro s hm
  refine (ih.statement c h hm).mono List.suffix_rfl ?_
  split
  · exact s.rest_suffix
  · exact List.suffix_rfl

theorem total_blockStatement (ih : TotalStmt n) (c : Context) (h : rulesPerToken * m + 15 < n) :
    Total m (blockStatement n c) :=
  (ih.block c h).total.bind fun _ => .pure _

theorem total_ifStatement (ih : TotalStmt n) (c : Context) (h : rulesPerToken * m + 12 < n) :
    Total m (ifStatement n c) := by
  simp only [rulesPerToken] at h
  refine (total_parenthesized _ _ (by simp only [rulesPerToken]; omega)).total.bind fun _ => ?_
  refine (progressing_statement ih c h).total.bind fun _ => ?_
  refine .accept (by decide) (.pure _) fun m₁ hm₁ _ => ?_
  exact (progressing_statement ih c (by simp only [rulesPerToken]; omega)).total.bind fun _ =>
    .pure _

theorem total_switchStatement (ih : TotalStmt n) (c : Context) (h : rulesPerToken * m < n) :
    Total m (switchStatement n c) :=
  (total_parenthesized _ _ h).total.bind fun _ => (Progressing.expect _).total.bind fun _ =>
    (ih.arms c h).bind fun _ => (Progressing.expect _).total.bind fun _ => .pure _

theorem total_whileStatement (ih : TotalStmt n) (c : Context) (h : rulesPerToken * m + 12 < n) :
    Total m (whileStatement n c) :=
  (total_parenthesized _ _ (Nat.lt_of_le_of_lt (Nat.le_add_right _ _) h)).total.bind fun _ =>
    (progressing_statement ih c.loop h).total.bind fun _ => .pure _

theorem total_forStatement (ih : TotalStmt n) (c : Context) (h : rulesPerToken * m + 12 < n) :
    Total m (forStatement n c) :=
  (total_forHead (Nat.lt_of_le_of_lt (Nat.le_add_right _ _) h)).total.bind fun _ =>
    (progressing_statement ih c.loop h).total.bind fun _ => .pure _

theorem total_doStatement (ih : TotalStmt n) (c : Context) (h : rulesPerToken * m + 12 < n) :
    Total m (doStatement n c) :=
  (progressing_statement ih c.loop h).total.bind fun _ => (Progressing.expect _).total.bind fun _ =>
    (total_parenthesized _ _ (Nat.lt_of_le_of_lt (Nat.le_add_right _ _) h)).total.bind fun _ =>
    (Progressing.expect _).total.bind fun _ => .pure _

/-- A parse that passes a keyword may as well fail after it as before it. -/
theorem rest_suffix_ite (s : State) (kinds : List Kind) :
    s.rest <:+ (if s.current.kind ∈ kinds then s.rest else s.stream) := by
  split
  · exact List.suffix_rfl
  · exact s.rest_suffix

/-- After the keyword of a statement nothing needs more fuel than one token gives. -/
theorem keyword_within {f : Token → Parser α} {k : Kind} {bads : List Token}
    (hbads : s.rest <:+ bads) (hm : s.rest.length ≤ m)
    (hk : s.current.kind = k) (hne : k ≠ .eof) (hf : ∀ m' < m, ∀ t, Total m' (f t)) :
    ((advance >>= f) s).Within s.rest bads :=
  (advance_bind_within (hk ▸ hne) hm hf).mono List.suffix_rfl hbads

theorem form_within (ih : TotalStmt n) (c : Context) (h : rulesPerToken * m + 11 < n)
    (hm : s.rest.length ≤ m) :
    (form n c s).Within s.rest (if s.current.kind ∈ formKeywords then s.rest else s.stream) := by
  simp only [rulesPerToken] at h
  have hfuel {m' : Nat} (hm' : m' < m) : rulesPerToken * m' + 15 < n := by
    simp only [rulesPerToken]
    omega
  have hless {m' k : Nat} (hm' : m' < m) (hk : k ≤ 15) : rulesPerToken * m' + k < n :=
    Nat.lt_of_le_of_lt (Nat.add_le_add_left hk _) (hfuel hm')
  rw [form, peek_bind]
  -- Only the last case asks whether the statement starts with a keyword; the others all do.
  have hbads := rest_suffix_ite s formKeywords
  have hother (hk : s.current.kind ∉ formKeywords) :
      (if s.current.kind ∈ formKeywords then s.rest else s.stream) = s.stream := if_neg hk
  generalize (if s.current.kind ∈ formKeywords then s.rest else s.stream) = bads at hbads hother ⊢
  generalize hk : s.current.kind = k
  split
  · exact keyword_within hbads hm hk (by decide) fun _ hm' _ =>
      (total_printStatement (hless hm' (by decide))).total
  · exact keyword_within hbads hm hk (by decide) fun _ hm' _ =>
      total_blockStatement ih c (hfuel hm')
  · exact keyword_within hbads hm hk (by decide) fun _ hm' _ =>
      total_ifStatement ih c (hless hm' (by decide))
  · exact keyword_within hbads hm hk (by decide) fun _ hm' _ =>
      total_switchStatement ih c (hless hm' (Nat.zero_le _))
  · exact keyword_within hbads hm hk (by decide) fun _ hm' _ =>
      total_whileStatement ih c (hless hm' (by decide))
  · exact keyword_within hbads hm hk (by decide) fun _ hm' _ =>
      total_forStatement ih c (hless hm' (by decide))
  · exact keyword_within hbads hm hk (by decide) fun _ hm' _ =>
      total_doStatement ih c (hless hm' (by decide))
  · exact keyword_within hbads hm hk (by decide) fun _ _ _ => total_jumpStatement _ _ _
  · exact keyword_within hbads hm hk (by decide) fun _ _ _ => total_jumpStatement _ _ _
  · exact keyword_within hbads hm hk (by decide) fun _ hm' _ =>
      total_returnStatement _ (hless hm' (by decide))
  · rw [hother (by simp_all [formKeywords])]
    exact total_expressionStatement h s hm

theorem statement_within (ih : TotalStmt n) (c : Context) (h : rulesPerToken * m + 12 < n + 1)
    (hm : s.rest.length ≤ m) :
    (statement (n + 1) c s).Within s.rest
      (if s.current.kind ∈ formKeywords then s.rest else s.stream) := by
  rw [statement_succ]
  have hform := form_within ih c.deeper (Nat.lt_of_succ_lt_succ h) hm
  by_cases hdepth : maxNesting < c.deeper.depth
  · have hhalt : guardDepth c.deeper s = .halt .nesting s := by simp [guardDepth, hdepth, halt]
    change (Parser.bind (guardDepth c.deeper) (fun _ => form n c.deeper) s).Within _ _
    simp only [Parser.bind, hhalt]
    exact Halt.noConfusion
  · have hpass : guardDepth c.deeper s = .ok () s := by simp [guardDepth, hdepth]
    change (Parser.bind (guardDepth c.deeper) (fun _ => form n c.deeper) s).Within _ _
    simp only [Parser.bind, hpass]
    exact hform

theorem total_function (ih : TotalStmt n) (c : Context) (h : rulesPerToken * m < n + 1) :
    Progressing m (function (n + 1) c) := by
  simp only [rulesPerToken] at h
  rw [function_succ]
  refine (Progressing.expect _).bind fun name m₁ hm₁ => ?_
  refine (Progressing.expect _).total.bind fun _ => ?_
  have hparams : Total m₁ (parameterList n) :=
    .unlessAt (total_parameters 0 (by simp only [rulesPerToken]; omega)).total
  refine hparams.bind fun params => (Progressing.expect _).total.bind fun _ =>
    (Progressing.expect _).total.bind fun _ => (Total.guardDepth _).bind fun _ => ?_
  exact (ih.block _ (by simp only [rulesPerToken]; omega)).total.bind fun _ => .pure _

/-- A declaration that fails without passing a token does so at a token that starts none. -/
theorem unrecovered_within (ih : TotalStmt n) (c : Context) (h : rulesPerToken * m + 12 < n)
    (hm : s.rest.length ≤ m) :
    (unrecovered n c s).Within s.rest
      (if s.current.kind ∈ State.starters then s.rest else s.stream) := by
  simp only [rulesPerToken] at h
  rw [unrecovered, peek_bind]
  have hform := ih.statement c (by simp only [rulesPerToken]; omega) hm
  have hbads := rest_suffix_ite s State.starters
  have hother (hk : s.current.kind ∉ State.starters) :
      (if s.current.kind ∈ State.starters then s.rest else s.stream) = s.stream := if_neg hk
  have hstarter (hk : s.current.kind ∈ State.starters) :
      (if s.current.kind ∈ State.starters then s.rest else s.stream) = s.rest := if_pos hk
  generalize (if s.current.kind ∈ State.starters then s.rest else s.stream) = bads
    at hbads hother hstarter ⊢
  generalize hk : s.current.kind = k
  split
  · exact keyword_within hbads hm hk (by decide) fun m' hm' _ =>
      (ih.function c (by simp only [rulesPerToken]; omega)).total
  · exact keyword_within hbads hm hk (by decide) fun m' hm' _ =>
      (total_varDeclaration (by simp only [rulesPerToken]; omega)).total
  · refine hform.mono List.suffix_rfl ?_
    by_cases hmem : s.current.kind ∈ State.starters
    · have hkeyword : s.current.kind ∈ formKeywords := by
        simp_all [State.starters, formKeywords]
      simp only [hstarter hmem, if_pos hkeyword, List.suffix_rfl]
    · rw [hother hmem]
      split
      · exact s.rest_suffix
      · exact List.suffix_rfl

/-- Recovery does not stand at a token that starts nothing. -/
theorem landing_ne_here {inBlock : Bool} {k : Kind} (heof : k ≠ .eof)
    (hbrace : inBlock = true → k ≠ .rightBrace) (hstarter : k ∉ State.starters) :
    State.landing inBlock k 0 ≠ .here := by
  unfold State.landing
  split <;> simp_all

/-- Either the error came after the first token, or recovery does not stay at that token. -/
theorem recovered_suffix {inBlock : Bool} {r u : State} (heof : s.current.kind ≠ .eof)
    (hbrace : inBlock = true → s.current.kind ≠ .rightBrace)
    (hsuffix : r.stream <:+ if s.current.kind ∈ State.starters then s.rest else s.stream)
    (hu : r.recover inBlock 0 = some u) : u.stream <:+ s.rest := by
  obtain ⟨hsuffix', hpassed⟩ := State.recover_suffix hu
  split at hsuffix
  · exact hsuffix'.trans hsuffix
  next hstarter =>
    rcases List.suffix_cons_iff.1 hsuffix with heq | hrest
    · obtain ⟨hcurrent, hrest⟩ := List.cons.inj heq
      have hlanding : State.landing inBlock r.current.kind 0 ≠ .here := by
        rw [hcurrent]
        exact landing_ne_here heof hbrace hstarter
      exact hrest ▸ hpassed hlanding
    · exact hsuffix'.trans hrest

theorem declaration_within (ih : TotalStmt n) (c : Context) (h : rulesPerToken * m + 13 < n + 1)
    (hm : s.rest.length ≤ m) (heof : s.current.kind ≠ .eof)
    (hbrace : c.inBlock = true → s.current.kind ≠ .rightBrace) :
    (declaration (n + 1) c s).Within s.rest s.rest := by
  rw [declaration_succ]
  have hinner := unrecovered_within (s := s.calm) ih c (Nat.lt_of_succ_lt_succ h) hm
  unfold recovering
  cases hresult : unrecovered n c s.calm with
  | ok d r =>
    rw [hresult] at hinner
    exact hinner
  | halt cause r =>
    rw [hresult] at hinner
    exact hinner
  | bad r =>
    rw [hresult] at hinner
    cases hu : r.recover c.inBlock 0 with
    | none =>
      simp only [hu]
      nofun
    | some u =>
      simp only [hu]
      exact recovered_suffix heof hbrace hinner hu

/-- No error of syntax gets out of what recovers from those inside. -/
theorem recovering_ne_bad {α : Type} (inBlock : Bool) (p : Parser α) (s r : State) :
    recovering inBlock p s ≠ .bad r := by
  unfold recovering
  split
  · nofun
  · split <;> nofun
  · nofun

theorem declaration_ne_bad (n : Nat) (c : Context) (s r : State) : declaration n c s ≠ .bad r := by
  cases n with
  | zero => nofun
  | succ n =>
    rw [declaration_succ]
    exact recovering_ne_bad _ _ s r

theorem total_items (ih : TotalStmt n) (c : Context) (h : rulesPerToken * m + 14 < n + 1) :
    Total m (items (n + 1) c) := by
  intro s hm
  simp only [rulesPerToken] at h
  rw [items, peek_bind]
  generalize hk : s.current.kind = k
  split
  · exact Total.pure _ s hm
  · exact Total.pure _ s hm
  next hbrace heof =>
    have hfirst := ih.declaration c (by simp only [rulesPerToken]; omega) hm
      (fun he => heof (hk.symm.trans he)) (fun _ he => hbrace (hk.symm.trans he))
    refine within_bind (hfirst.mono List.suffix_rfl s.rest_suffix) fun first r hsuffix => ?_
    have hlength := length_lt_of_suffix hsuffix
    have hothers : Total r.rest.length (items n c) :=
      ih.items c (by simp only [rulesPerToken]; omega)
    exact ((hothers.bind fun _ => .pure _) r (Nat.le_refl _)).mono
      (hsuffix.trans s.rest_suffix) (hsuffix.trans s.rest_suffix)

theorem total_arms (ih : TotalStmt n) (c : Context) (h : rulesPerToken * m < n + 1) :
    Total m (arms (n + 1) c) := by
  intro s hm
  simp only [rulesPerToken] at h
  rw [arms, peek_bind]
  generalize hk : s.current.kind = k
  have hfuel {m' : Nat} (hm' : m' < m) : rulesPerToken * m' + 12 < n := by
    simp only [rulesPerToken]
    omega
  split
  · refine (keyword_within s.rest_suffix hm hk (by decide) fun m' hm' _ => ?_).mono s.rest_suffix
      List.suffix_rfl
    have hrest : rulesPerToken * m' < n := Nat.lt_of_le_of_lt (Nat.le_add_right _ _) (hfuel hm')
    exact (total_expr (Nat.lt_of_succ_lt (hfuel hm'))).total.bind fun _ =>
      (Progressing.expect _).total.bind fun _ =>
      (progressing_statement ih c (hfuel hm')).total.bind fun _ =>
      (ih.arms c hrest).bind fun _ => .pure _
  · refine (keyword_within s.rest_suffix hm hk (by decide) fun m' hm' _ => ?_).mono s.rest_suffix
      List.suffix_rfl
    exact (Progressing.expect _).total.bind fun _ =>
      (progressing_statement ih c (hfuel hm')).total.bind fun _ => .pure _
  · exact Total.pure _ s hm

theorem totalStmt (n : Nat) : TotalStmt n := by
  induction n with
  | zero =>
    exact ⟨fun _ h => absurd h (Nat.not_lt_zero _), fun _ h => absurd h (Nat.not_lt_zero _),
      fun _ h => absurd h (Nat.not_lt_zero _), fun _ h => absurd h (Nat.not_lt_zero _),
      fun _ h => absurd h (Nat.not_lt_zero _), fun _ h => absurd h (Nat.not_lt_zero _)⟩
  | succ n ih =>
    refine ⟨fun c h _ => declaration_within ih c h, total_function ih,
      fun c h _ => statement_within ih c h, fun c h => ?_, total_items ih, total_arms ih⟩
    rw [block]
    exact (ih.items _ (Nat.lt_of_succ_lt_succ h)).progressing fun _ =>
      (Progressing.expect _).bind fun _ _ _ => .pure _

/-- Each declaration passes a token, so the fuel lasts to the end. -/
theorem program_ends (room : Nat) (h : rulesPerToken * s.rest.length + 14 < n) (r : State) :
    (program n room s).2 ≠ .halted .outOfFuel r := by
  induction n generalizing s with
  | zero => exact absurd h (Nat.not_lt_zero _)
  | succ n ih =>
    unfold program
    by_cases hend : s.atEnd = true
    · rw [if_pos hend]
      intro hhalted
      cases hhalted
    · rw [if_neg hend]
      have heof : s.current.kind ≠ .eof := by simpa [State.atEnd] using hend
      have hdeclaration := (totalStmt n).declaration (.top room) (Nat.lt_of_succ_lt_succ h)
        (Nat.le_refl _) heof (by simp [Context.top])
      cases hd : declaration n (.top room) s with
      | ok d u =>
        rw [hd] at hdeclaration
        have hlength := length_lt_of_suffix hdeclaration
        simp only [rulesPerToken] at h ih
        exact ih (by omega)
      | bad u =>
        intro hhalted
        cases hhalted
      | halt cause u =>
        rw [hd] at hdeclaration
        intro hhalted
        exact hdeclaration (Ending.halted.inj hhalted).1

end Parse

open Parse

/-- The fuel is always enough. -/
theorem parse_ne_outOfFuel (room : Nat) (tokens : List Token) :
    parse room tokens ≠ .error .outOfFuel := by
  unfold parse
  cases hstart : State.start? tokens with
  | none =>
    intro h
    cases h
  | some s =>
    have hlength : s.rest.length < tokens.length :=
      length_lt_of_suffix (State.pullFrom_suffix hstart)
    have hfuel : rulesPerToken * s.rest.length + 14 < rulesPerToken * (tokens.length + 2) := by
      simp only [rulesPerToken]
      omega
    have hends := program_ends (operandRules + room) hfuel
    dsimp only
    cases hprogram : program (rulesPerToken * (tokens.length + 2)) (operandRules + room) s with
    | mk statements ending =>
      rw [hprogram] at hends
      cases ending with
      | done r =>
        intro h
        cases h
      | halted cause r =>
        cases cause with
        | outOfFuel => exact absurd rfl (hends r)
        | nesting | outOfTokens | badNumber =>
          intro h
          cases h

/-- There is an end, and the numbers before it can be read. -/
def Whole : List Token → Prop
  | [] => False
  | t :: ts =>
    t.kind = .eof ∨ (t.kind = .number → (readNumber? t.lexeme).isSome = true) ∧ Whole ts

theorem Whole.rest {t : Token} {ts : List Token} (h : Whole (t :: ts)) (ht : t.kind ≠ .eof) :
    Whole ts :=
  (h.resolve_left ht).2

theorem Whole.number {t : Token} {ts : List Token} (h : Whole (t :: ts)) (ht : t.kind = .number) :
    (readNumber? t.lexeme).isSome = true := by
  rcases h with heof | ⟨hnumber, -⟩
  · rw [ht] at heof
    cases heof
  · exact hnumber ht

namespace Parse

variable {α : Type} {s : State} {n room : Nat}

/-- Tokens that are whole stay so, and nothing about them stops a parser. -/
def Result.Whole : Result α → Prop
  | .ok _ r | .bad r => Scriptlet.Whole r.stream
  | .halt cause _ => cause = .nesting ∨ cause = .outOfFuel

namespace State

theorem pullFrom_whole {ts : List Token} (h : Whole ts) (s : State) :
    ∃ r, s.pullFrom ts = some r ∧ Whole r.stream := by
  induction ts generalizing s with
  | nil => exact h.elim
  | cons t ts ih =>
    unfold pullFrom
    by_cases herror : t.kind = .error
    · rw [if_pos herror]
      have heof : t.kind ≠ .eof := by simp [herror]
      exact ih (h.rest heof) _
    · rw [if_neg herror]
      exact ⟨_, rfl, h⟩

theorem pull_whole (h : Whole s.stream) (hs : s.current.kind ≠ .eof) :
    ∃ r, s.pull = some r ∧ Whole r.stream := pullFrom_whole (h.rest hs) s

theorem recover_whole (h : Whole s.stream) (inBlock : Bool) (depth : Nat) :
    ∃ r, s.recover inBlock depth = some r ∧ Whole r.stream := by
  have heof {s : State} {depth : Nat} {l : Landing}
      (hl : landing inBlock s.current.kind depth = l) (hne : l ≠ .here) :
      s.current.kind ≠ .eof := by
    intro he
    rw [he] at hl
    exact hne hl.symm
  fun_induction recover s inBlock depth with
  | case1 s depth hlanding => exact ⟨s, rfl, h⟩
  | case2 s depth hlanding => exact pull_whole h (heof hlanding (by simp))
  | case3 s depth depth' hlanding hnone =>
    obtain ⟨r, hr, -⟩ := pull_whole h (heof hlanding (by simp))
    rw [hnone] at hr
    cases hr
  | case4 s depth depth' hlanding u hu ih =>
    obtain ⟨u', hu', hwhole⟩ := pull_whole h (heof hlanding (by simp))
    obtain rfl := Option.some.inj (hu.symm.trans hu')
    exact ih hwhole

end State

theorem advance_whole (h : Whole s.stream) :
    ∃ r, advance s = .ok s.current r ∧ Whole r.stream := by
  unfold advance
  by_cases hend : s.atEnd = true
  · exact ⟨s, if_pos hend, h⟩
  · have heof : s.current.kind ≠ .eof := by simpa [State.atEnd] using hend
    obtain ⟨r, hr, hwhole⟩ := State.pull_whole h heof
    refine ⟨r, ?_, hwhole⟩
    rw [if_neg hend, hr]

theorem numberLiteral_whole (h : Whole s.stream) (hs : s.current.kind = .number) :
    (numberLiteral s).Whole := by
  obtain ⟨x, hx⟩ := Option.isSome_iff_exists.1 (h.number hs)
  obtain ⟨r, hr, hwhole⟩ := advance_whole h
  change (Parser.bind advance _ s).Whole
  simp only [Parser.bind, hr, hx]
  exact hwhole

theorem Elementary.whole {p : Parser α} (hp : Elementary p) (hs : Whole s.stream) :
    (p s).Whole := by
  induction hp generalizing s with
  | pure | peek | check | report | reportHere | fail => exact hs
  | halt h => exact h
  | advance =>
    obtain ⟨r, hr, hwhole⟩ := advance_whole hs
    rw [hr]
    exact hwhole
  | @number f hnumber hf ih =>
    change (f s.current.kind s).Whole
    by_cases hk : s.current.kind = .number
    · rw [hk, hnumber]
      exact numberLiteral_whole hs hk
    · exact ih _ hk hs
  | @bind _ _ p f _ _ ihp ihf =>
    have hp := ihp hs
    change (Parser.bind p f s).Whole
    unfold Parser.bind
    cases hps : p s with
    | ok a r =>
      rw [hps] at hp
      exact ihf a hp
    | bad r | halt cause r =>
      rw [hps] at hp
      exact hp
  | @recovering _ inBlock p _ ih =>
    have hp := ih (s := s.calm) hs
    unfold Parse.recovering
    cases hps : p s.calm with
    | ok a r | halt cause r =>
      rw [hps] at hp
      exact hp
    | bad r =>
      rw [hps] at hp
      obtain ⟨u, hu, hwhole⟩ := State.recover_whole hp inBlock 0
      simp only [hu]
      exact hwhole

theorem program_whole (hs : Whole s.stream) {cause : Halt} {r : State}
    (h : (program n room s).2 = .halted cause r) : cause = .nesting ∨ cause = .outOfFuel := by
  induction n generalizing s with
  | zero => exact .inr (Ending.halted.inj h).1.symm
  | succ n ih =>
    unfold program at h
    split at h
    · cases h
    · have hd := ((elementaryStmt n).declaration (.top room)).whole hs
      cases hdeclaration : declaration n (.top room) s with
      | ok d u =>
        rw [hdeclaration] at hd h
        exact ih hd h
      | bad u =>
        rw [hdeclaration] at h
        cases h
      | halt why u =>
        rw [hdeclaration] at hd h
        obtain ⟨rfl, -⟩ := Ending.halted.inj h
        exact hd

end Parse

/-- Whatever stands in the tokens, they have a parse. -/
theorem parse_total (room : Nat) {tokens : List Token} (h : Whole tokens) :
    ∃ parsed, parse room tokens = .ok parsed := by
  have hfuel := parse_ne_outOfFuel room tokens
  obtain ⟨s, hstart, hs⟩ := State.pullFrom_whole h ⟨default, tokens, false, []⟩
  have hstart' : State.start? tokens = some s := hstart
  have hwhole {cause : Halt} {r : State} (h : (program (rulesPerToken * (tokens.length + 2))
      (operandRules + room) s).2 = .halted cause r) :
      cause = .nesting ∨ cause = .outOfFuel := program_whole hs h
  unfold parse at hfuel ⊢
  simp only [hstart'] at hfuel ⊢
  cases hprogram : program (rulesPerToken * (tokens.length + 2)) (operandRules + room) s with
  | mk statements ending =>
    rw [hprogram] at hwhole hfuel
    cases ending with
    | done r => exact ⟨_, rfl⟩
    | halted cause r =>
      obtain rfl | rfl := hwhole rfl
      · exact ⟨_, rfl⟩
      · exact absurd rfl hfuel

theorem whole_of_readable {ts us : List Token} {eof : Token} (heof : eof.kind = .eof)
    (hnumbers : ∀ t ∈ ts, t.kind = .number → (readNumber? t.lexeme).isSome = true) :
    Whole (ts ++ eof :: us) := by
  induction ts with
  | nil => exact .inl heof
  | cons t ts ih =>
    exact .inr ⟨hnumbers t List.mem_cons_self,
      ih fun u hu => hnumbers u (List.mem_cons_of_mem _ hu)⟩

theorem whole_scan (text : String) : Whole (scan text) := by
  obtain ⟨ts, eof, hscan, heof, -⟩ := scan_end text
  rw [hscan]
  exact whole_of_readable heof fun t ht => scan_number (hscan ▸ List.mem_append_left _ ht)

/-- Every text has a parse. -/
theorem parse_scan (room : Nat) (text : String) : ∃ parsed, parse room (scan text) = .ok parsed :=
  parse_total room (whole_scan text)

end Scriptlet

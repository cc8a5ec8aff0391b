import Scriptlet.Proofs.Parsing.Expressions
import Scriptlet.Proofs.Parsing.Soundness

/-! What the grammar says is a program is parsed without a report, so the parser finds the programs
of the grammar and no others. -/
namespace Scriptlet.Parse

open Grammar

variable {α : Type} {n room : Nat} {t u : Token} {ts us : List Token}

/-- An expression before a token that closes it. -/
theorem expr_complete {e : Expr Unit} (h : ExprSpelledBy e ts)
    (hn : rulesPerToken * ts.length + 11 ≤ n) (hroom : e.rules .comma ≤ room)
    (hp : Proper (u :: us)) (hu : u.kind ∈ [Kind.rightParen, .semicolon, .colon]) :
    expr n room .comma (reading (ts ++ u :: us)) = .ok e (reading (u :: us)) := by
  have : ∀ k ∈ [Kind.rightParen, .semicolon, .colon], k ∉ Level.comma.followers := by decide
  exact (phrase_complete h).expr h hn hroom hp (this _ hu)

theorem optional_complete {stop : Kind} {o : Option (Expr Unit)} (h : OptionalSpelledBy o ts)
    (hstop : stop = .semicolon ∨ stop = .rightParen) (hn : rulesPerToken * ts.length + 11 ≤ n)
    (hroom : ∀ e ∈ o, e.rules .comma ≤ room) (hp : Proper (u :: us)) (hu : u.kind = stop) :
    unlessAt stop none (some <$> expr n room .comma) (reading (ts ++ u :: us)) =
      .ok o (reading (u :: us)) := by
  cases h with
  | absent => exact unlessAt_reading hu
  | present he =>
    have hexpr := expr_complete he hn (hroom _ rfl) hp
      (by rcases hstop with rfl | rfl <;> simp [hu])
    obtain ⟨t, ts, rfl, ht⟩ := he.opens
    have : ∀ k ∈ Level.comma.openers, k ≠ .semicolon ∧ k ≠ .rightParen := by decide
    have hne : t.kind ≠ stop := by
      rcases hstop with rfl | rfl
      · exact (this _ ht).1
      · exact (this _ ht).2
    exact (unlessAt_reading_of_ne hne).trans (map_of_ok hexpr)

theorem parenthesized_complete {left right : Slot} {e : Expr Unit} {t₁ t₂ : Token}
    (h₁ : t₁.kind = left.kind) (h₂ : t₂.kind = right.kind) (hright : right.kind = .rightParen)
    (h : ExprSpelledBy e ts) (hn : rulesPerToken * ts.length + 11 ≤ n)
    (hroom : e.rules .comma ≤ room) (hne : us ≠ []) (hp : Proper us) :
    parenthesized n room left right (reading (t₁ :: (ts ++ t₂ :: us))) = .ok e (reading us) := by
  have hclose : Proper (t₂ :: us) := proper_cons.2 ⟨by simp [h₂, hright], hp⟩
  have hafter : Proper (ts ++ t₂ :: us) := proper_append.2 ⟨h.proper, hclose⟩
  have hexpr := expr_complete h hn hroom hclose (by simp [h₂, hright])
  rw [parenthesized, bind_of_ok (expect_reading h₁ (by simp) hafter), bind_of_ok hexpr,
    bind_of_ok (expect_reading h₂ hne hp)]
  rfl

/-- An expression and the token that ends it. -/
theorem terminated_complete {slot : Slot} {f : Expr Unit → α} {e : Expr Unit} {ts : List Token}
    (h : ExprSpelledBy e ts) (ht : t.kind = .semicolon) (hslot : slot.kind = .semicolon)
    (hn : rulesPerToken * ts.length + 11 ≤ n) (hroom : e.rules .comma ≤ room) (hne : us ≠ [])
    (hp : Proper us) :
    (do let e ← expr n room .comma; let _ ← expect slot; return f e) (reading (ts ++ t :: us)) =
      .ok (f e) (reading us) := by
  have hend : Proper (t :: us) := proper_cons.2 ⟨by simp [ht], hp⟩
  have hexpr := expr_complete h hn hroom hend (by simp [ht])
  rw [bind_of_ok hexpr, bind_of_ok (expect_reading (ht.trans hslot.symm) hne hp)]
  rfl

theorem varDeclaration_complete {st : Stmt Unit} (h : VarSpelledBy st ts)
    (hn : rulesPerToken * ts.length ≤ n) (hroom : st.rules ≤ room) (hne : us ≠ [])
    (hp : Proper us) : varDeclaration n room (reading (ts ++ us)) = .ok st (reading us) := by
  rw [varDeclaration_eq]
  cases h with
  | @plain name semicolon hname hsemicolon =>
    have hend : Proper (semicolon :: us) := proper_cons.2 ⟨by simp [hsemicolon], hp⟩
    have hinit : initializer n room (reading (semicolon :: us)) =
        .ok none (reading (semicolon :: us)) := by
      rw [initializer, bind_of_ok (accept_reading_none (by simp [hsemicolon]))]
      rfl
    simp only [List.cons_append, List.nil_append]
    rw [bind_of_ok (expect_reading hname (by simp) hend), bind_of_ok hinit,
      bind_of_ok (expect_reading hsemicolon hne hp)]
    rfl
  | @initialized name equals semicolon init ts hname hequals hsemicolon hinit =>
    simp only [List.length_cons, List.length_append, List.length_nil, rulesPerToken] at hn
    have hend : Proper (semicolon :: us) := proper_cons.2 ⟨by simp [hsemicolon], hp⟩
    have hafter : Proper (ts ++ semicolon :: us) := proper_append.2 ⟨hinit.proper, hend⟩
    have hequal : equals.kind ∈ [Kind.equal] := by simp [hequals]
    have hexpr := expr_complete hinit (n := n) (by simp only [rulesPerToken]; omega) hroom hend
      (by simp [hsemicolon])
    have hinit : initializer n room (reading (equals :: (ts ++ semicolon :: us))) =
        .ok (some init) (reading (semicolon :: us)) := by
      rw [initializer, bind_of_ok (accept_reading hequal (by decide) (by simp) hafter)]
      exact map_of_ok hexpr
    simp only [List.cons_append, List.append_assoc, List.nil_append]
    rw [bind_of_ok (expect_reading hname (by simp) (proper_cons.2 ⟨by simp [hequals], hafter⟩)),
      bind_of_ok hinit, bind_of_ok (expect_reading hsemicolon hne hp)]
    rfl

theorem forInit_complete {init : Option (Stmt Unit)} (h : InitSpelledBy init ts)
    (hn : rulesPerToken * ts.length ≤ n) (hroom : ∀ s ∈ init, s.rules ≤ room) (hne : us ≠ [])
    (hp : Proper us) : forInit n room (reading (ts ++ us)) = .ok init (reading us) := by
  cases h with
  | @absent semicolon hsemicolon =>
    rw [forInit, List.cons_append, bind_of_ok peek_reading]
    simp only [hsemicolon, List.nil_append]
    rw [bind_of_ok (advance_reading (by simp [hsemicolon]) hne hp)]
    rfl
  | @var keyword s ts hkeyword hs =>
    simp only [List.length_cons, rulesPerToken] at hn
    have hafter : Proper (ts ++ us) := proper_append.2 ⟨hs.proper, hp⟩
    have hvar := varDeclaration_complete hs (n := n) (by simp only [rulesPerToken]; omega)
      (hroom _ rfl) hne hp
    rw [forInit, List.cons_append, bind_of_ok peek_reading]
    simp only [hkeyword]
    rw [bind_of_ok (advance_reading (by simp [hkeyword]) (by simp [hne]) hafter)]
    exact map_of_ok hvar
  | @expression semicolon e ts hsemicolon he =>
    simp only [List.length_append, List.length_cons, List.length_nil, rulesPerToken] at hn
    have hterm : expressionStatement n room (reading (ts ++ semicolon :: us)) = _ :=
      terminated_complete he hsemicolon rfl (by simp only [rulesPerToken]; omega) (hroom _ rfl)
        hne hp
    obtain ⟨t, ts, rfl, ht⟩ := he.opens
    have : ∀ k ∈ Level.comma.openers, k ≠ .kwVar ∧ k ≠ .semicolon := by decide
    obtain ⟨hvar, hstop⟩ := this _ ht
    rw [forInit, List.append_assoc, List.cons_append, bind_of_ok peek_reading]
    generalize t.kind = k at hvar hstop
    split
    next => exact absurd rfl hvar
    next => exact absurd rfl hstop
    next => simpa using map_of_ok hterm

theorem forHead_complete {init : Option (Stmt Unit)} {condition step : Option (Expr Unit)}
    {left semicolon right : Token} {vs ws : List Token} (hleft : left.kind = .leftParen)
    (hsemicolon : semicolon.kind = .semicolon) (hright : right.kind = .rightParen)
    (hinit : InitSpelledBy init ts) (hcondition : OptionalSpelledBy condition us)
    (hstep : OptionalSpelledBy step vs)
    (hn : rulesPerToken * (ts.length + us.length + vs.length + 1) ≤ n)
    (hroom : ForHead.Fits room ⟨init, condition.getD (.literal (.bool true)), step⟩)
    (hne : ws ≠ []) (hp : Proper ws) :
    forHead n room (reading (left :: (ts ++ (us ++ semicolon :: (vs ++ right :: ws))))) =
      .ok ⟨init, condition.getD (.literal (.bool true)), step⟩ (reading ws) := by
  simp only [rulesPerToken] at hn
  have hclose : Proper (right :: ws) := proper_cons.2 ⟨by simp [hright], hp⟩
  have hthird : Proper (vs ++ right :: ws) := proper_append.2 ⟨hstep.proper, hclose⟩
  have hmiddle : Proper (semicolon :: (vs ++ right :: ws)) :=
    proper_cons.2 ⟨by simp [hsemicolon], hthird⟩
  have hsecond : Proper (us ++ semicolon :: (vs ++ right :: ws)) :=
    proper_append.2 ⟨hcondition.proper, hmiddle⟩
  have hfirst : Proper (ts ++ (us ++ semicolon :: (vs ++ right :: ws))) :=
    proper_append.2 ⟨hinit.proper, hsecond⟩
  have hinit := forInit_complete hinit (n := n) (by simp only [rulesPerToken]; omega)
    hroom.init (by simp) hsecond
  have hcondition : unlessAt .semicolon (.literal (.bool true)) (expr n room .comma)
      (reading (us ++ semicolon :: (vs ++ right :: ws))) =
        .ok (condition.getD (.literal (.bool true)))
          (reading (semicolon :: (vs ++ right :: ws))) := by
    cases hcondition with
    | absent => exact unlessAt_reading hsemicolon
    | present he =>
      have hexpr := expr_complete he (n := n) (by simp only [rulesPerToken]; omega)
        hroom.condition hmiddle (by simp [hsemicolon])
      obtain ⟨t, us, rfl, ht⟩ := he.opens
      have : ∀ k ∈ Level.comma.openers, k ≠ .semicolon := by decide
      exact (unlessAt_reading_of_ne (this _ ht)).trans hexpr
  have hstep := optional_complete hstep (.inr rfl) (n := n) (by simp only [rulesPerToken]; omega)
    hroom.step hclose hright
  rw [forHead_eq, bind_of_ok (expect_reading hleft (by simp) hfirst), bind_of_ok hinit,
    bind_of_ok hcondition, bind_of_ok (expect_reading hsemicolon (by simp) hthird),
    bind_of_ok hstep, bind_of_ok (expect_reading hright hne hp)]
  rfl

theorem parameters_complete {count : Nat} {ps : List Token} (h : ParamsSpelledBy ps ts)
    (hps : ps ≠ []) (hn : ts.length ≤ n) (hcount : count + ps.length ≤ maxArguments)
    (hp : Proper (u :: us)) (hu : u.kind = .rightParen) :
    parameters n count (reading (ts ++ u :: us)) = .ok ps (reading (u :: us)) := by
  induction h generalizing n count with
  | none => exact absurd rfl hps
  | @one p hname =>
    simp only [List.length_cons, List.length_nil] at hn hcount
    obtain ⟨n, rfl⟩ : ∃ k, n = k + 1 := ⟨n - 1, by omega⟩
    have hfew : decide (maxArguments ≤ count) = false := by simp; omega
    rw [parameters_succ, hfew, complainIf, List.cons_append, List.nil_append]
    refine (bind_of_ok (expect_reading hname (by simp) hp)).trans ?_
    rw [bind_of_ok (accept_reading_none (by simp [hu]))]
    rfl
  | @more p comma q ps ts hname hcomma hrest ih =>
    simp only [List.length_cons] at hn hcount
    obtain ⟨n, rfl⟩ : ∃ k, n = k + 1 := ⟨n - 1, by omega⟩
    have hafter : Proper (ts ++ u :: us) := proper_append.2 ⟨hrest.proper, hp⟩
    have hnext : Proper (comma :: (ts ++ u :: us)) := proper_cons.2 ⟨by simp [hcomma], hafter⟩
    have hfew : decide (maxArguments ≤ count) = false := by simp; omega
    have hmark : comma.kind ∈ [Kind.comma] := by simp [hcomma]
    have hothers := @ih n (count + 1) (by simp) (by omega) (by simp; omega)
    rw [parameters_succ, hfew, complainIf, List.cons_append, List.cons_append]
    refine (bind_of_ok (expect_reading hname (by simp) hnext)).trans ?_
    rw [bind_of_ok (accept_reading hmark (by decide) (by simp) hafter)]
    exact bind_of_ok hothers

theorem parameterList_complete {ps : List Token} (h : ParamsSpelledBy ps ts)
    (hn : ts.length ≤ n) (hmany : ps.length ≤ maxArguments) (hp : Proper (u :: us))
    (hu : u.kind = .rightParen) :
    parameterList n (reading (ts ++ u :: us)) = .ok ps (reading (u :: us)) := by
  have hread (hps : ps ≠ []) : parameters n 0 _ = _ :=
    parameters_complete h hps hn (by omega) hp hu
  cases h with
  | none => exact unlessAt_reading hu
  | one hname | more hname _ _ =>
    exact (unlessAt_reading_of_ne (by simp [hname])).trans (hread (by simp))

/-- The clause is read off its tokens, when the token after them cannot belong to it. -/
def CompleteClause : Clause → List Token → Prop
  | .statement inLoop depth dangling s, ts => ∀ (n : Nat) (c : Context) (u : Token)
    (us : List Token), c.inLoop = inLoop → c.depth = depth → s.rules ≤ c.room →
      rulesPerToken * ts.length + 1 ≤ n → Proper (u :: us) → (dangling = true → u.kind ≠ .kwElse) →
        statement n c (reading (ts ++ u :: us)) = .ok s (reading (u :: us))
  | .form inLoop depth dangling s, ts => ∀ (n : Nat) (c : Context) (u : Token)
    (us : List Token), c.inLoop = inLoop → c.depth = depth → s.rules ≤ c.room →
      rulesPerToken * ts.length ≤ n → Proper (u :: us) → (dangling = true → u.kind ≠ .kwElse) →
        form n c (reading (ts ++ u :: us)) = .ok s (reading (u :: us))
  | .declaration inLoop depth s, ts => ∀ (n : Nat) (c : Context) (u : Token) (us : List Token),
    c.inLoop = inLoop → c.depth = depth → s.rules ≤ c.room →
      rulesPerToken * ts.length + 2 ≤ n → Proper (u :: us) → u.kind ≠ .kwElse →
        declaration n c (reading (ts ++ u :: us)) = .ok (some s) (reading (u :: us))
  | .list inLoop depth ss, ts => ∀ (n : Nat) (c : Context) (u : Token) (us : List Token),
    c.inLoop = inLoop → c.depth = depth → Stmt.rulesAll ss ≤ c.room →
      rulesPerToken * ts.length + 3 ≤ n → Proper (u :: us) → u.kind = .rightBrace →
        items n c (reading (ts ++ u :: us)) = .ok ss (reading (u :: us))
  | .arms inLoop depth as, ts => ∀ (n : Nat) (c : Context) (u : Token) (us : List Token),
    c.inLoop = inLoop → c.depth = depth → as.rules ≤ c.room →
      rulesPerToken * ts.length + 3 ≤ n → Proper (u :: us) → u.kind = .rightBrace →
        Parse.arms n c (reading (ts ++ u :: us)) = .ok as (reading (u :: us))

variable {inLoop dangling : Bool} {depth : Nat}

theorem complete_nested {st : Stmt Unit} (hdepth : depth < maxNesting)
    (ih : CompleteClause (.form inLoop (depth + 1) dangling st) ts) :
    CompleteClause (.statement inLoop depth dangling st) ts := by
  intro n c u us hloop hd hroom hn hp hu
  obtain ⟨n, rfl⟩ : ∃ k, n = k + 1 := ⟨n - 1, by omega⟩
  have hguard (s : State) : guardDepth c.deeper s = .ok () s := by
    rw [guardDepth, if_neg (by simp only [Context.deeper]; omega)]
    rfl
  rw [statement_succ, bind_of_ok (hguard _)]
  exact ih n c.deeper u us hloop (by simp [Context.deeper, hd]) hroom (by omega) hp hu

theorem complete_print {keyword semicolon : Token} {e : Expr Unit}
    (hkeyword : keyword.kind = .kwPrint) (hsemicolon : semicolon.kind = .semicolon)
    (he : ExprSpelledBy e ts) :
    CompleteClause (.form inLoop depth false (.print e)) (keyword :: (ts ++ [semicolon])) := by
  intro n c u us _ _ hroom hn hp _
  simp only [List.length_cons, List.length_append, List.length_nil, rulesPerToken] at hn
  have hafter : Proper (ts ++ semicolon :: u :: us) := by simp_all [he.proper]
  have hrest : printStatement n c.room (reading (ts ++ semicolon :: u :: us)) = _ :=
    terminated_complete he hsemicolon rfl (by simp only [rulesPerToken]; omega) hroom (by simp) hp
  simp only [List.cons_append, List.append_assoc, List.nil_append]
  rw [form, bind_of_ok peek_reading]
  simp only [hkeyword]
  rw [bind_of_ok (advance_reading (by simp [hkeyword]) (by simp) hafter)]
  exact hrest

/-- A list of declarations and the brace that closes it. -/
theorem block_reading {c : Context} {right : Token} {ss : List (Stmt Unit)}
    (ih : CompleteClause (.list inLoop depth ss) ts) (hright : right.kind = .rightBrace)
    (hloop : c.inLoop = inLoop) (hdepth : c.depth = depth) (hroom : Stmt.rulesAll ss ≤ c.room)
    (hn : rulesPerToken * ts.length + 4 ≤ n) (hne : us ≠ []) (hp : Proper us) :
    block n c (reading (ts ++ right :: us)) = .ok ss (reading us) := by
  obtain ⟨n, rfl⟩ : ∃ k, n = k + 1 := ⟨n - 1, by omega⟩
  have hclose : Proper (right :: us) := proper_cons.2 ⟨by simp [hright], hp⟩
  have hbody := ih n c.block right us hloop hdepth hroom (by omega) hclose hright
  rw [block, bind_of_ok hbody, bind_of_ok (expect_reading hright hne hp)]
  rfl

theorem complete_block {left right : Token} {ss : List (Stmt Unit)}
    (hleft : left.kind = .leftBrace) (hright : right.kind = .rightBrace)
    (hss : (Clause.list inLoop depth ss).SpelledBy ts)
    (ih : CompleteClause (.list inLoop depth ss) ts) :
    CompleteClause (.form inLoop depth false (.block ss)) (left :: (ts ++ [right])) := by
  intro n c u us hloop hdepth hroom hn hp _
  simp only [List.length_cons, List.length_append, List.length_nil, rulesPerToken] at hn
  have hafter : Proper (ts ++ right :: u :: us) := by simp_all [hss.proper]
  have hrest := block_reading (n := n) ih hright hloop hdepth hroom
    (by simp only [rulesPerToken]; omega) (by simp) hp
  simp only [List.cons_append, List.append_assoc, List.nil_append]
  rw [form, bind_of_ok peek_reading]
  simp only [hleft]
  rw [bind_of_ok (advance_reading (by simp [hleft]) (by simp) hafter), blockStatement,
    bind_of_ok hrest]
  rfl

theorem complete_ifThen {keyword left right : Token} {condition : Expr Unit} {body : Stmt Unit}
    (hkeyword : keyword.kind = .kwIf) (hleft : left.kind = .leftParen)
    (hright : right.kind = .rightParen) (hcondition : ExprSpelledBy condition ts)
    (hbody : (Clause.statement inLoop depth dangling body).SpelledBy us)
    (ih : CompleteClause (.statement inLoop depth dangling body) us) :
    CompleteClause (.form inLoop depth true (.ifThen condition body))
      (keyword :: left :: (ts ++ right :: us)) := by
  intro n c u vs hloop hdepth hroom hn hp hu
  simp only [List.length_cons, List.length_append, rulesPerToken] at hn
  have hlast : Proper (us ++ u :: vs) := proper_append.2 ⟨hbody.proper, hp⟩
  have hafter : Proper (left :: (ts ++ right :: (us ++ u :: vs))) := by
    simp_all [hcondition.proper]
  obtain ⟨hfits, hroom⟩ := Nat.max_le.1 hroom
  have hfirst : parenthesized n c.room .ifOpen .ifClose _ = _ :=
    parenthesized_complete hleft hright rfl hcondition (by simp only [rulesPerToken]; omega)
      hfits (by simp) hlast
  have hsecond := ih n c u vs hloop hdepth hroom (by simp only [rulesPerToken]; omega) hp
    fun _ => hu rfl
  simp only [List.cons_append, List.append_assoc]
  rw [form, bind_of_ok peek_reading]
  simp only [hkeyword]
  rw [bind_of_ok (advance_reading (by simp [hkeyword]) (by simp) hafter), ifStatement,
    bind_of_ok hfirst, bind_of_ok hsecond, bind_of_ok (accept_reading_none (by simpa using hu))]
  rfl

theorem complete_ifElse {keyword left right kwElse : Token} {condition : Expr Unit}
    {yes no : Stmt Unit} {vs : List Token} (hkeyword : keyword.kind = .kwIf)
    (hleft : left.kind = .leftParen) (hright : right.kind = .rightParen)
    (helse : kwElse.kind = .kwElse) (hcondition : ExprSpelledBy condition ts)
    (hyes : (Clause.statement inLoop depth false yes).SpelledBy us)
    (hno : (Clause.statement inLoop depth dangling no).SpelledBy vs)
    (ihyes : CompleteClause (.statement inLoop depth false yes) us)
    (ihno : CompleteClause (.statement inLoop depth dangling no) vs) :
    CompleteClause (.form inLoop depth dangling (.ifElse condition yes no))
      (keyword :: left :: (ts ++ right :: (us ++ kwElse :: vs))) := by
  intro n c u ws hloop hdepth hroom hn hp hu
  simp only [List.length_cons, List.length_append, rulesPerToken] at hn
  have hlast : Proper (vs ++ u :: ws) := proper_append.2 ⟨hno.proper, hp⟩
  have hmiddle : Proper (kwElse :: (vs ++ u :: ws)) := proper_cons.2 ⟨by simp [helse], hlast⟩
  have hbranch : Proper (us ++ kwElse :: (vs ++ u :: ws)) := proper_append.2 ⟨hyes.proper, hmiddle⟩
  have hafter : Proper (left :: (ts ++ right :: (us ++ kwElse :: (vs ++ u :: ws)))) := by
    simp_all [hcondition.proper]
  obtain ⟨hfits, hroom⟩ := Nat.max_le.1 hroom
  obtain ⟨hroomYes, hroomNo⟩ := Nat.max_le.1 hroom
  have hfirst : parenthesized n c.room .ifOpen .ifClose _ = _ :=
    parenthesized_complete hleft hright rfl hcondition (by simp only [rulesPerToken]; omega)
      hfits (by simp) hbranch
  have hsecond := ihyes n c kwElse (vs ++ u :: ws) hloop hdepth hroomYes
    (by simp only [rulesPerToken]; omega) hmiddle (by simp)
  have hthird := ihno n c u ws hloop hdepth hroomNo (by simp only [rulesPerToken]; omega) hp hu
  have hmark : kwElse.kind ∈ [Kind.kwElse] := by simp [helse]
  simp only [List.cons_append, List.append_assoc]
  rw [form, bind_of_ok peek_reading]
  simp only [hkeyword]
  rw [bind_of_ok (advance_reading (by simp [hkeyword]) (by simp) hafter), ifStatement,
    bind_of_ok hfirst, bind_of_ok hsecond,
    bind_of_ok (accept_reading hmark (by decide) (by simp) hlast)]
  exact bind_of_ok hthird

theorem complete_switch {keyword left right leftBrace rightBrace : Token} {subject : Expr Unit}
    {as : Arms Unit} (hkeyword : keyword.kind = .kwSwitch) (hleft : left.kind = .leftParen)
    (hright : right.kind = .rightParen) (hleftBrace : leftBrace.kind = .leftBrace)
    (hrightBrace : rightBrace.kind = .rightBrace) (hsubject : ExprSpelledBy subject ts)
    (harms : (Clause.arms inLoop depth as).SpelledBy us)
    (ih : CompleteClause (.arms inLoop depth as) us) :
    CompleteClause (.form inLoop depth false (.switch subject as))
      (keyword :: left :: (ts ++ right :: leftBrace :: (us ++ [rightBrace]))) := by
  intro n c u vs hloop hdepth hroom hn hp _
  simp only [List.length_cons, List.length_append, List.length_nil, rulesPerToken] at hn
  have hclose : Proper (rightBrace :: u :: vs) := proper_cons.2 ⟨by simp [hrightBrace], hp⟩
  have hlast : Proper (us ++ rightBrace :: u :: vs) := proper_append.2 ⟨harms.proper, hclose⟩
  have hbody : Proper (leftBrace :: (us ++ rightBrace :: u :: vs)) :=
    proper_cons.2 ⟨by simp [hleftBrace], hlast⟩
  have hafter : Proper (left :: (ts ++ right :: leftBrace :: (us ++ rightBrace :: u :: vs))) := by
    simp_all [hsubject.proper]
  obtain ⟨hfits, hroom⟩ := Nat.max_le.1 hroom
  have hfirst : parenthesized n c.room .switchOpen .switchClose _ = _ :=
    parenthesized_complete hleft hright rfl hsubject (by simp only [rulesPerToken]; omega)
      hfits (by simp) hbody
  have hsecond := ih n c rightBrace (u :: vs) hloop hdepth hroom
    (by simp only [rulesPerToken]; omega) hclose hrightBrace
  simp only [List.cons_append, List.append_assoc, List.nil_append]
  rw [form, bind_of_ok peek_reading]
  simp only [hkeyword]
  rw [bind_of_ok (advance_reading (by simp [hkeyword]) (by simp) hafter), switchStatement,
    bind_of_ok hfirst, bind_of_ok (expect_reading hleftBrace (by simp) hlast),
    bind_of_ok hsecond, bind_of_ok (expect_reading hrightBrace (by simp) hp)]
  rfl

theorem complete_whileLoop {keyword left right : Token} {condition : Expr Unit} {body : Stmt Unit}
    (hkeyword : keyword.kind = .kwWhile) (hleft : left.kind = .leftParen)
    (hright : right.kind = .rightParen) (hcondition : ExprSpelledBy condition ts)
    (hbody : (Clause.statement true depth dangling body).SpelledBy us)
    (ih : CompleteClause (.statement true depth dangling body) us) :
    CompleteClause (.form inLoop depth dangling (.loop condition body))
      (keyword :: left :: (ts ++ right :: us)) := by
  intro n c u vs _ hdepth hroom hn hp hu
  simp only [List.length_cons, List.length_append, rulesPerToken] at hn
  have hlast : Proper (us ++ u :: vs) := proper_append.2 ⟨hbody.proper, hp⟩
  have hafter : Proper (left :: (ts ++ right :: (us ++ u :: vs))) := by
    simp_all [hcondition.proper]
  obtain ⟨hfits, hroom⟩ := Nat.max_le.1 hroom
  have hfirst : parenthesized n c.room .whileOpen .whileClose _ = _ :=
    parenthesized_complete hleft hright rfl hcondition (by simp only [rulesPerToken]; omega)
      hfits (by simp) hlast
  have hsecond := ih n c.loop u vs rfl hdepth hroom (by simp only [rulesPerToken]; omega) hp hu
  simp only [List.cons_append, List.append_assoc]
  rw [form, bind_of_ok peek_reading]
  simp only [hkeyword]
  rw [bind_of_ok (advance_reading (by simp [hkeyword]) (by simp) hafter), whileStatement,
    bind_of_ok hfirst]
  exact bind_of_ok hsecond

theorem complete_forLoop {keyword left semicolon right : Token} {init : Option (Stmt Unit)}
    {condition step : Option (Expr Unit)} {body : Stmt Unit} {vs ws : List Token}
    (hkeyword : keyword.kind = .kwFor) (hleft : left.kind = .leftParen)
    (hsemicolon : semicolon.kind = .semicolon) (hright : right.kind = .rightParen)
    (hinit : InitSpelledBy init ts) (hcondition : OptionalSpelledBy condition us)
    (hstep : OptionalSpelledBy step vs)
    (hbody : (Clause.statement true depth dangling body).SpelledBy ws)
    (ih : CompleteClause (.statement true depth dangling body) ws) :
    CompleteClause (.form inLoop depth dangling (forTree init condition step body))
      (keyword :: left :: (ts ++ (us ++ semicolon :: (vs ++ right :: ws)))) := by
  intro n c u xs _ hdepth hroom hn hp hu
  simp only [List.length_cons, List.length_append, rulesPerToken] at hn
  have hlast : Proper (ws ++ u :: xs) := proper_append.2 ⟨hbody.proper, hp⟩
  have hafter :
      Proper (left :: (ts ++ (us ++ semicolon :: (vs ++ right :: (ws ++ u :: xs))))) := by
    simp_all [hinit.proper, hcondition.proper, hstep.proper]
  have htree : forTree init condition step body =
      ForHead.loop ⟨init, condition.getD (.literal (.bool true)), step⟩ body := by
    cases init <;> cases step <;> rfl
  rw [htree] at hroom ⊢
  obtain ⟨hfits, hroom⟩ := ForHead.rules_loop_le.1 hroom
  have hhead := forHead_complete (n := n) hleft hsemicolon hright hinit hcondition hstep
    (by simp only [rulesPerToken]; omega) hfits (by simp) hlast
  have hrest := ih n c.loop u xs rfl hdepth hroom (by simp only [rulesPerToken]; omega) hp hu
  simp only [List.cons_append, List.append_assoc]
  rw [form, bind_of_ok peek_reading]
  simp only [hkeyword]
  rw [bind_of_ok (advance_reading (by simp [hkeyword]) (by simp) hafter), forStatement,
    bind_of_ok hhead, bind_of_ok hrest]
  rfl

theorem complete_doLoop {keyword kwWhile left right semicolon : Token} {condition : Expr Unit}
    {body : Stmt Unit} (hkeyword : keyword.kind = .kwDo) (hwhile : kwWhile.kind = .kwWhile)
    (hleft : left.kind = .leftParen) (hright : right.kind = .rightParen)
    (hsemicolon : semicolon.kind = .semicolon)
    (hbody : (Clause.statement true depth dangling body).SpelledBy ts)
    (hcondition : ExprSpelledBy condition us)
    (ih : CompleteClause (.statement true depth dangling body) ts) :
    CompleteClause (.form inLoop depth false (.doLoop body condition))
      (keyword :: (ts ++ kwWhile :: left :: (us ++ [right, semicolon]))) := by
  intro n c u vs _ hdepth hroom hn hp _
  simp only [List.length_cons, List.length_append, List.length_nil, rulesPerToken] at hn
  have hend : Proper (semicolon :: u :: vs) := proper_cons.2 ⟨by simp [hsemicolon], hp⟩
  have hparen : Proper (left :: (us ++ right :: semicolon :: u :: vs)) := by
    simp_all [hcondition.proper]
  have hloop : Proper (kwWhile :: left :: (us ++ right :: semicolon :: u :: vs)) :=
    proper_cons.2 ⟨by simp [hwhile], hparen⟩
  have hafter := proper_append.2 ⟨hbody.proper, hloop⟩
  obtain ⟨hfits, hroom⟩ := Nat.max_le.1 hroom
  have hfirst := ih n c.loop kwWhile _ rfl hdepth hroom (by simp only [rulesPerToken]; omega) hloop
    (by simp [hwhile])
  have hsecond : parenthesized n c.room .whileOpen .whileClose _ = _ :=
    parenthesized_complete hleft hright rfl hcondition (by simp only [rulesPerToken]; omega)
      hfits (by simp) hend
  simp only [List.cons_append, List.append_assoc, List.nil_append]
  rw [form, bind_of_ok peek_reading]
  simp only [hkeyword]
  rw [bind_of_ok (advance_reading (by simp [hkeyword]) (by simp) hafter), doStatement,
    bind_of_ok hfirst, bind_of_ok (expect_reading hwhile (by simp) hparen),
    bind_of_ok hsecond, bind_of_ok (expect_reading hsemicolon (by simp) hp)]
  rfl

theorem jumpStatement_complete {c : Context} {j : Jump} {keyword semicolon : Token}
    (hloop : c.inLoop = true) (hsemicolon : semicolon.kind = .semicolon) (hne : us ≠ [])
    (hp : Proper us) :
    jumpStatement c j keyword (reading (semicolon :: us)) = .ok (.jump j keyword) (reading us) := by
  rw [jumpStatement_eq, hloop]
  refine (bind_of_ok (expect_reading hsemicolon hne hp)).trans ?_
  rfl

theorem complete_exit {keyword semicolon : Token} (hkeyword : keyword.kind = .kwBreak)
    (hsemicolon : semicolon.kind = .semicolon) :
    CompleteClause (.form true depth false (.jump .exit keyword)) [keyword, semicolon] := by
  intro n c u us hloop _ hroom _ hp _
  have hafter : Proper (semicolon :: u :: us) := proper_cons.2 ⟨by simp [hsemicolon], hp⟩
  simp only [List.cons_append, List.nil_append]
  rw [form, bind_of_ok peek_reading]
  simp only [hkeyword]
  rw [bind_of_ok (advance_reading (by simp [hkeyword]) (by simp) hafter)]
  exact jumpStatement_complete hloop hsemicolon (by simp) hp

theorem complete_again {keyword semicolon : Token} (hkeyword : keyword.kind = .kwContinue)
    (hsemicolon : semicolon.kind = .semicolon) :
    CompleteClause (.form true depth false (.jump .again keyword)) [keyword, semicolon] := by
  intro n c u us hloop _ hroom _ hp _
  have hafter : Proper (semicolon :: u :: us) := proper_cons.2 ⟨by simp [hsemicolon], hp⟩
  simp only [List.cons_append, List.nil_append]
  rw [form, bind_of_ok peek_reading]
  simp only [hkeyword]
  rw [bind_of_ok (advance_reading (by simp [hkeyword]) (by simp) hafter)]
  exact jumpStatement_complete hloop hsemicolon (by simp) hp

theorem complete_give {keyword semicolon : Token} {value : Option (Expr Unit)}
    (hkeyword : keyword.kind = .kwReturn) (hsemicolon : semicolon.kind = .semicolon)
    (hvalue : OptionalSpelledBy value ts) :
    CompleteClause (.form inLoop depth false (.give keyword value))
      (keyword :: (ts ++ [semicolon])) := by
  intro n c u us _ _ hroom hn hp _
  simp only [List.length_cons, List.length_append, List.length_nil, rulesPerToken] at hn
  have hend : Proper (semicolon :: u :: us) := proper_cons.2 ⟨by simp [hsemicolon], hp⟩
  have hafter : Proper (ts ++ semicolon :: u :: us) := proper_append.2 ⟨hvalue.proper, hend⟩
  have hfits : ∀ e ∈ value, e.rules .comma ≤ c.room := by
    rintro e rfl
    exact hroom
  have hrest := optional_complete hvalue (.inl rfl) (n := n) (by simp only [rulesPerToken]; omega)
    hfits hend hsemicolon
  simp only [List.cons_append, List.append_assoc, List.nil_append]
  rw [form, bind_of_ok peek_reading]
  simp only [hkeyword]
  rw [bind_of_ok (advance_reading (by simp [hkeyword]) (by simp) hafter), returnStatement_eq,
    bind_of_ok hrest, bind_of_ok (expect_reading hsemicolon (by simp) hp)]
  rfl

theorem complete_expression {semicolon : Token} {e : Expr Unit}
    (hsemicolon : semicolon.kind = .semicolon) (he : ExprSpelledBy e ts) :
    CompleteClause (.form inLoop depth false (.expression e)) (ts ++ [semicolon]) := by
  intro n c u us _ _ hroom hn hp _
  simp only [List.length_append, List.length_cons, List.length_nil, rulesPerToken] at hn
  have hrest : expressionStatement n c.room (reading (ts ++ semicolon :: u :: us)) = _ :=
    terminated_complete he hsemicolon rfl (by simp only [rulesPerToken]; omega) hroom (by simp) hp
  obtain ⟨t, ts, rfl, ht⟩ := he.opens
  simp only [List.cons_append, List.append_assoc, List.nil_append] at hrest ⊢
  rw [form, bind_of_ok peek_reading]
  -- no keyword is an opener of an expression
  have : ∀ k ∈ Level.comma.openers, k ∉ [Kind.kwPrint, .leftBrace, .kwIf, .kwSwitch, .kwWhile,
      .kwFor, .kwDo, .kwBreak, .kwContinue, .kwReturn] := by decide
  have hk := this _ ht
  generalize t.kind = k at hk
  split <;> first | exact hrest | simp at hk

/-- A declaration that is read without an error needs no recovery. -/
theorem declaration_reading {c : Context} {st : Stmt Unit}
    (h : unrecovered n c (reading (t :: ts)) = .ok st (reading us)) :
    declaration (n + 1) c (reading (t :: ts)) = .ok (some st) (reading us) := by
  have hcalm : (reading (t :: ts)).calm = reading (t :: ts) := rfl
  rw [declaration_succ, recovering, hcalm, h]

theorem complete_plain {st : Stmt Unit}
    (hst : (Clause.statement inLoop depth dangling st).SpelledBy ts)
    (ih : CompleteClause (.statement inLoop depth dangling st) ts) :
    CompleteClause (.declaration inLoop depth st) ts := by
  intro n c u us hloop hdepth hroom hn hp hu
  obtain ⟨n, rfl⟩ : ∃ k, n = k + 1 := ⟨n - 1, by omega⟩
  have hrest := ih n c u us hloop hdepth hroom (by omega) hp fun _ => hu
  obtain ⟨t, ts, rfl, ht⟩ := hst.starts
  rw [List.cons_append] at hrest ⊢
  refine declaration_reading ?_
  rw [unrecovered, bind_of_ok peek_reading]
  have : ∀ k ∈ Clause.openers, k ≠ .kwFunction ∧ k ≠ .kwVar := by decide
  obtain ⟨hfunction, hvar⟩ := this _ ht
  generalize t.kind = k at hfunction hvar
  split
  next => exact absurd rfl hfunction
  next => exact absurd rfl hvar
  next => exact hrest

theorem complete_var {keyword : Token} {st : Stmt Unit} (hkeyword : keyword.kind = .kwVar)
    (hst : VarSpelledBy st ts) : CompleteClause (.declaration inLoop depth st) (keyword :: ts) := by
  intro n c u us _ _ hroom hn hp _
  simp only [List.length_cons, rulesPerToken] at hn
  obtain ⟨n, rfl⟩ : ∃ k, n = k + 1 := ⟨n - 1, by omega⟩
  have hafter : Proper (ts ++ u :: us) := proper_append.2 ⟨hst.proper, hp⟩
  have hrest := varDeclaration_complete hst (n := n) (by simp only [rulesPerToken]; omega)
    hroom (by simp) hp
  rw [List.cons_append]
  refine declaration_reading ?_
  rw [unrecovered, bind_of_ok peek_reading]
  simp only [hkeyword]
  rw [bind_of_ok (advance_reading (by simp [hkeyword]) (by simp) hafter)]
  exact hrest

theorem complete_function {keyword name left right leftBrace rightBrace : Token}
    {params : List Token} {body : List (Stmt Unit)} (hkeyword : keyword.kind = .kwFunction)
    (hname : name.kind = .identifier) (hleft : left.kind = .leftParen)
    (hright : right.kind = .rightParen) (hleftBrace : leftBrace.kind = .leftBrace)
    (hrightBrace : rightBrace.kind = .rightBrace) (hmany : params.length ≤ maxArguments)
    (hdepth : depth < maxNesting) (hparams : ParamsSpelledBy params ts)
    (hbody : (Clause.list false (depth + 1) body).SpelledBy us)
    (ih : CompleteClause (.list false (depth + 1) body) us) :
    CompleteClause (.declaration inLoop depth (.function name params body))
      (keyword :: name :: left :: (ts ++ right :: leftBrace :: (us ++ [rightBrace]))) := by
  intro n c u vs hloop hd hroom hn hp _
  simp only [List.length_cons, List.length_append, List.length_nil, rulesPerToken] at hn
  obtain ⟨n, rfl⟩ : ∃ k, n = k + 2 := ⟨n - 2, by omega⟩
  have hlast : Proper (us ++ rightBrace :: u :: vs) := by simp_all [hbody.proper]
  have hbrace : Proper (leftBrace :: (us ++ rightBrace :: u :: vs)) :=
    proper_cons.2 ⟨by simp [hleftBrace], hlast⟩
  have hclose : Proper (right :: leftBrace :: (us ++ rightBrace :: u :: vs)) :=
    proper_cons.2 ⟨by simp [hright], hbrace⟩
  have hfirst : Proper (ts ++ right :: leftBrace :: (us ++ rightBrace :: u :: vs)) :=
    proper_append.2 ⟨hparams.proper, hclose⟩
  have hopen : Proper (left :: (ts ++ right :: leftBrace :: (us ++ rightBrace :: u :: vs))) :=
    proper_cons.2 ⟨by simp [hleft], hfirst⟩
  have hlist := parameterList_complete hparams (n := n) (by omega) hmany hclose hright
  have hguard (s : State) : guardDepth c.function s = .ok () s := by
    rw [guardDepth, if_neg (by simp only [Context.function, Context.deeper]; omega)]
    rfl
  have hblock := block_reading (n := n) (c := c.function) ih hrightBrace rfl
    (by simp [Context.function, Context.deeper, hd]) hroom (by simp only [rulesPerToken]; omega)
    (by simp) hp
  simp only [List.cons_append, List.append_assoc, List.nil_append]
  refine declaration_reading ?_
  rw [unrecovered, bind_of_ok peek_reading]
  simp only [hkeyword]
  rw [bind_of_ok (advance_reading (by simp [hkeyword]) (by simp)
      (proper_cons.2 ⟨by simp [hname], hopen⟩)), function_succ,
    bind_of_ok (expect_reading hname (by simp) hopen),
    bind_of_ok (expect_reading hleft (by simp) hfirst), bind_of_ok hlist,
    bind_of_ok (expect_reading hright (by simp) hbrace),
    bind_of_ok (expect_reading hleftBrace (by simp) hlast), bind_of_ok (hguard _),
    bind_of_ok hblock]
  rfl

theorem items_of_end {s : State} {c : Context}
    (hend : s.current.kind = .rightBrace ∨ s.current.kind = .eof) :
    items (n + 1) c s = .ok [] s := by
  rw [items, peek_bind]
  obtain hend | hend := hend <;> rw [hend] <;> rfl

theorem items_of_more {s : State} {c : Context} (hbrace : s.current.kind ≠ .rightBrace)
    (heof : s.current.kind ≠ .eof) :
    items (n + 1) c s = (do
      let first ← declaration n c
      let rest ← items n c
      return first.toList ++ rest) s := by
  rw [items, peek_bind]
  generalize s.current.kind = k at hbrace heof
  split
  next => exact absurd rfl hbrace
  next => exact absurd rfl heof
  next => rfl

theorem complete_nil : CompleteClause (.list inLoop depth []) [] := by
  intro n c u us _ _ hroom hn _ hu
  obtain ⟨n, rfl⟩ : ∃ k, n = k + 1 := ⟨n - 1, by omega⟩
  exact items_of_end (.inl hu)

/-- After a declaration of a list comes another one or what comes after the list. -/
theorem list_next {ss : List (Stmt Unit)} (h : (Clause.list inLoop depth ss).SpelledBy ts)
    (hp : Proper (u :: us)) (hu : u.kind ≠ .kwElse) :
    ∃ v vs, ts ++ u :: us = v :: vs ∧ Proper (v :: vs) ∧ v.kind ≠ .kwElse := by
  have hall : Proper (ts ++ u :: us) := proper_append.2 ⟨h.proper, hp⟩
  obtain rfl | ⟨v, vs, rfl, hv⟩ := h.starts
  · exact ⟨u, us, rfl, hp, hu⟩
  · have : ∀ k ∈ .kwVar :: .kwFunction :: Clause.openers, k ≠ .kwElse := by decide
    exact ⟨v, vs ++ u :: us, rfl, hall, this _ hv⟩

/-- The first token of a declaration does not end a list. -/
theorem items_of_declaration {c : Context} {st : Stmt Unit}
    (hst : (Clause.declaration inLoop depth st).SpelledBy ts) :
    items (n + 1) c (reading (ts ++ us)) = (do
      let first ← declaration n c
      let rest ← items n c
      return first.toList ++ rest) (reading (ts ++ us)) := by
  obtain ⟨t, ts, rfl, ht⟩ := hst.starts
  have : ∀ k ∈ .kwVar :: .kwFunction :: Clause.openers, k ≠ .rightBrace ∧ k ≠ .eof := by decide
  obtain ⟨hbrace, heof⟩ := this _ ht
  exact items_of_more hbrace heof

theorem complete_cons {st : Stmt Unit} {ss : List (Stmt Unit)}
    (hst : (Clause.declaration inLoop depth st).SpelledBy ts)
    (hss : (Clause.list inLoop depth ss).SpelledBy us)
    (ihst : CompleteClause (.declaration inLoop depth st) ts)
    (ihss : CompleteClause (.list inLoop depth ss) us) :
    CompleteClause (.list inLoop depth (st :: ss)) (ts ++ us) := by
  intro n c u vs hloop hdepth hroom hn hp hu
  simp only [List.length_append, rulesPerToken] at hn
  obtain ⟨n, rfl⟩ : ∃ k, n = k + 1 := ⟨n - 1, by omega⟩
  obtain ⟨w, ws, hrest, hw, helse⟩ := list_next hss hp (by simp [hu])
  have hlen := Opens.length_pos hst.starts
  obtain ⟨hroomFirst, hroomOthers⟩ := Nat.max_le.1 hroom
  have hfirst := ihst n c w ws hloop hdepth hroomFirst (by simp only [rulesPerToken]; omega) hw
    helse
  have hothers := ihss n c u vs hloop hdepth hroomOthers (by simp only [rulesPerToken]; omega) hp hu
  rw [hrest] at hothers
  rw [List.append_assoc, hrest, items_of_declaration hst, bind_of_ok hfirst, bind_of_ok hothers]
  rfl

theorem complete_noArm : CompleteClause (.arms inLoop depth .done) [] := by
  intro n c u us _ _ hroom hn _ hu
  obtain ⟨n, rfl⟩ : ∃ k, n = k + 1 := ⟨n - 1, by omega⟩
  rw [arms, List.nil_append, bind_of_ok peek_reading]
  simp only [hu]
  rfl

theorem complete_otherwise {keyword colon : Token} {body : Stmt Unit}
    (hkeyword : keyword.kind = .kwDefault) (hcolon : colon.kind = .colon)
    (hbody : (Clause.statement inLoop depth dangling body).SpelledBy ts)
    (ih : CompleteClause (.statement inLoop depth dangling body) ts) :
    CompleteClause (.arms inLoop depth (.otherwise body)) (keyword :: colon :: ts) := by
  intro n c u us hloop hdepth hroom hn hp hu
  simp only [List.length_cons, rulesPerToken] at hn
  obtain ⟨n, rfl⟩ : ∃ k, n = k + 1 := ⟨n - 1, by omega⟩
  have hlast : Proper (ts ++ u :: us) := proper_append.2 ⟨hbody.proper, hp⟩
  have hafter : Proper (colon :: (ts ++ u :: us)) := proper_cons.2 ⟨by simp [hcolon], hlast⟩
  have hrest := ih n c u us hloop hdepth hroom (by simp only [rulesPerToken]; omega) hp
    (by simp [hu])
  rw [arms, List.cons_append, List.cons_append, bind_of_ok peek_reading]
  simp only [hkeyword]
  rw [bind_of_ok (advance_reading (by simp [hkeyword]) (by simp) hafter),
    bind_of_ok (expect_reading hcolon (by simp) hlast), bind_of_ok hrest]
  rfl

theorem complete_case {keyword colon : Token} {condition : Expr Unit} {body : Stmt Unit}
    {others : Arms Unit} {vs : List Token} (hkeyword : keyword.kind = .kwCase)
    (hcolon : colon.kind = .colon) (hcondition : ExprSpelledBy condition ts)
    (hbody : (Clause.statement inLoop depth dangling body).SpelledBy us)
    (hothers : (Clause.arms inLoop depth others).SpelledBy vs)
    (ihbody : CompleteClause (.statement inLoop depth dangling body) us)
    (ihothers : CompleteClause (.arms inLoop depth others) vs) :
    CompleteClause (.arms inLoop depth (.case condition body others))
      (keyword :: (ts ++ colon :: (us ++ vs))) := by
  intro n c u ws hloop hdepth hroom hn hp hu
  simp only [List.length_cons, List.length_append, rulesPerToken] at hn
  obtain ⟨n, rfl⟩ : ∃ k, n = k + 1 := ⟨n - 1, by omega⟩
  have hlast : Proper (vs ++ u :: ws) := proper_append.2 ⟨hothers.proper, hp⟩
  have hmiddle : Proper (us ++ (vs ++ u :: ws)) := proper_append.2 ⟨hbody.proper, hlast⟩
  have hnext : Proper (colon :: (us ++ (vs ++ u :: ws))) :=
    proper_cons.2 ⟨by simp [hcolon], hmiddle⟩
  have hafter : Proper (ts ++ colon :: (us ++ (vs ++ u :: ws))) :=
    proper_append.2 ⟨hcondition.proper, hnext⟩
  obtain ⟨hfits, hroom⟩ := Nat.max_le.1 hroom
  obtain ⟨hroomBody, hroomOthers⟩ := Nat.max_le.1 hroom
  have hfirst := expr_complete hcondition (n := n) (by simp only [rulesPerToken]; omega) hfits
    hnext (by simp [hcolon])
  have hthird := ihothers n c u ws hloop hdepth hroomOthers (by simp only [rulesPerToken]; omega)
    hp hu
  -- another arm or the brace comes next, no `else`
  obtain ⟨w, ws', hrest, hw, helse⟩ : ∃ w ws', vs ++ u :: ws = w :: ws' ∧ Proper (w :: ws') ∧
      w.kind ≠ .kwElse := by
    obtain rfl | ⟨w, ws', rfl, hk⟩ := hothers.starts
    · exact ⟨u, ws, rfl, hp, by simp [hu]⟩
    · have : ∀ k ∈ [Kind.kwCase, .kwDefault], k ≠ .kwElse := by decide
      exact ⟨w, ws' ++ u :: ws, rfl, hlast, this _ hk⟩
  have hsecond := ihbody n c w ws' hloop hdepth hroomBody (by simp only [rulesPerToken]; omega) hw
    fun _ => helse
  rw [← hrest] at hsecond
  simp only [List.cons_append, List.append_assoc]
  rw [arms, bind_of_ok peek_reading]
  simp only [hkeyword]
  rw [bind_of_ok (advance_reading (by simp [hkeyword]) (by simp) hafter), bind_of_ok hfirst,
    bind_of_ok (expect_reading hcolon (by simp) hmiddle), bind_of_ok hsecond, bind_of_ok hthird]
  rfl

theorem clause_complete {c : Clause} (h : c.SpelledBy ts) : CompleteClause c ts := by
  induction h with
  | nested hdepth _ ih => exact complete_nested hdepth ih
  | print hkeyword hsemicolon he => exact complete_print hkeyword hsemicolon he
  | block hleft hright hss ih => exact complete_block hleft hright hss ih
  | ifThen hkeyword hleft hright hcondition hbody ih =>
    exact complete_ifThen hkeyword hleft hright hcondition hbody ih
  | ifElse hkeyword hleft hright helse hcondition hyes hno ihyes ihno =>
    exact complete_ifElse hkeyword hleft hright helse hcondition hyes hno ihyes ihno
  | switch hkeyword hleft hright hleftBrace hrightBrace hsubject harms ih =>
    exact complete_switch hkeyword hleft hright hleftBrace hrightBrace hsubject harms ih
  | whileLoop hkeyword hleft hright hcondition hbody ih =>
    exact complete_whileLoop hkeyword hleft hright hcondition hbody ih
  | forLoop hkeyword hleft hsemicolon hright hinit hcondition hstep hbody ih =>
    exact complete_forLoop hkeyword hleft hsemicolon hright hinit hcondition hstep hbody ih
  | doLoop hkeyword hwhile hleft hright hsemicolon hbody hcondition ih =>
    exact complete_doLoop hkeyword hwhile hleft hright hsemicolon hbody hcondition ih
  | exit hkeyword hsemicolon => exact complete_exit hkeyword hsemicolon
  | again hkeyword hsemicolon => exact complete_again hkeyword hsemicolon
  | give hkeyword hsemicolon hvalue => exact complete_give hkeyword hsemicolon hvalue
  | expression hsemicolon he => exact complete_expression hsemicolon he
  | plain hst ih => exact complete_plain hst ih
  | var hkeyword hst => exact complete_var hkeyword hst
  | function hkeyword hname hleft hright hleftBrace hrightBrace hmany hdepth hparams hbody ih =>
    exact complete_function hkeyword hname hleft hright hleftBrace hrightBrace hmany hdepth
      hparams hbody ih
  | nil => exact complete_nil
  | cons hst hss ihst ihss => exact complete_cons hst hss ihst ihss
  | noArm => exact complete_noArm
  | otherwise hkeyword hcolon hbody ih => exact complete_otherwise hkeyword hcolon hbody ih
  | case hkeyword hcolon hcondition hbody hothers ihbody ihothers =>
    exact complete_case hkeyword hcolon hcondition hbody hothers ihbody ihothers

theorem program_complete {ss : List (Stmt Unit)} (h : ProgramSpelledBy ss ts)
    (hu : u.kind = .eof) (hn : rulesPerToken * ts.length + 3 ≤ n)
    (hroom : Stmt.rulesAll ss ≤ room) :
    program n room (reading (ts ++ [u])) = (ss, .done (reading [u])) := by
  induction ss generalizing n ts with
  | nil =>
    obtain ⟨n, rfl⟩ : ∃ k, n = k + 1 := ⟨n - 1, by omega⟩
    cases h
    simp [program, reading, State.atEnd, hu]
  | cons st ss ih =>
    obtain ⟨n, rfl⟩ : ∃ k, n = k + 1 := ⟨n - 1, by omega⟩
    cases h with
    | @cons _ _ _ _ ts us hst hss =>
      simp only [List.length_append, rulesPerToken] at hn
      have hend : Proper [u] := by simp [hu]
      obtain ⟨w, ws, hrest, hw, helse⟩ := list_next hss hend (by simp [hu])
      have hlen := Opens.length_pos hst.starts
      obtain ⟨hroomFirst, hroomOthers⟩ := Nat.max_le.1 hroom
      have hfirst := clause_complete hst n (.top room) w ws rfl rfl hroomFirst
        (by simp only [rulesPerToken]; omega) hw helse
      have hothers := ih (n := n) hss (by simp only [rulesPerToken]; omega) hroomOthers
      rw [hrest] at hothers
      obtain ⟨t, ts, rfl, ht⟩ := hst.starts
      have : ∀ k ∈ .kwVar :: .kwFunction :: Clause.openers, k ≠ .eof := by decide
      have hmore : (reading (t :: ts ++ w :: ws)).atEnd = false := by
        simp [reading, State.atEnd, this _ ht]
      rw [List.append_assoc, hrest, program, hmore, hfirst]
      simp [hothers]

/-- A program of the grammar is parsed, and nothing is reported, if there is room. -/
theorem parse_of_spelledBy {eof : Token} {statements : List (Stmt Unit)} (heof : eof.kind = .eof)
    (h : ProgramSpelledBy statements ts) (hroom : Stmt.rulesAll statements ≤ operandRules + room) :
    parse room (ts ++ [eof]) = .ok ⟨statements, []⟩ := by
  have hp : Proper (ts ++ [eof]) := by simp [h.proper, heof]
  have hstart : State.start? (ts ++ [eof]) = some (reading (ts ++ [eof])) := by
    obtain ⟨t, us, htu⟩ := List.exists_cons_of_ne_nil (List.append_ne_nil_of_right_ne_nil ts
      (List.cons_ne_nil eof []))
    rw [htu] at hp ⊢
    simp [State.start?, State.pull, State.pullFrom, reading, (proper_cons.1 hp).1]
  have hprogram := program_complete h heof (n := rulesPerToken * ((ts ++ [eof]).length + 2))
    (by simp [rulesPerToken]; omega) hroom
  unfold parse
  simp only [hstart]
  rw [hprogram]
  rfl

/-- No list of tokens spells two programs: the grammar leaves no choice. -/
theorem program_unique {program program' : List (Stmt Unit)} (h : ProgramSpelledBy program ts)
    (h' : ProgramSpelledBy program' ts) : program = program' := by
  let eof : Token := ⟨.eof, "", .start⟩
  let room := max (Stmt.rulesAll program) (Stmt.rulesAll program')
  have hparse : parse room (ts ++ [eof]) = .ok ⟨program, []⟩ :=
    parse_of_spelledBy rfl h (by omega)
  have hparse' : parse room (ts ++ [eof]) = .ok ⟨program', []⟩ :=
    parse_of_spelledBy rfl h' (by omega)
  simpa using hparse.symm.trans hparse'

/-- Parsing reports nothing just when the tokens, up to their only end, spell a program and there is
room for its rules, and then it returns this program. -/
theorem parse_eq_ok_iff {eof : Token} {program : List (Stmt Unit)}
    (hts : ∀ t ∈ ts, t.kind ≠ .eof) (heof : eof.kind = .eof) :
    parse room (ts ++ [eof]) = .ok ⟨program, []⟩ ↔
      ProgramSpelledBy program ts ∧ Stmt.rulesAll program ≤ operandRules + room :=
  ⟨fun h => ⟨parse_spelledBy hts h, rules_le h⟩, fun h => parse_of_spelledBy heof h.1 h.2⟩

/-- The `else` goes to the inner `if`. -/
theorem inner_else_spelledBy :
    let word (kind : Kind) : Token := ⟨kind, kind.name, .start⟩
    let name (s : String) : Token := ⟨.identifier, s, .start⟩
    let use (s : String) : Stmt Unit := .expression (.reference (name s) ())
    let ts := [word .kwIf, word .leftParen, name "a", word .rightParen,
      word .kwIf, word .leftParen, name "b", word .rightParen,
      name "x", word .semicolon, word .kwElse, name "y", word .semicolon]
    let program : List (Stmt Unit) := [.ifThen (.reference (name "a") ())
      (.ifElse (.reference (name "b") ()) (use "x") (use "y"))]
    (∀ t ∈ ts, t.kind ≠ .eof) ∧ (word .eof).kind = .eof ∧
      parse 0 (ts ++ [word .eof]) = .ok ⟨program, []⟩ ∧ ProgramSpelledBy program ts := by
  intro word name use ts program
  have hts : ∀ t ∈ ts, t.kind ≠ .eof := by decide
  have hparse : parse 0 (ts ++ [word .eof]) = .ok ⟨program, []⟩ := by cbv
  exact ⟨hts, rfl, hparse, ((parse_eq_ok_iff hts rfl).1 hparse).1⟩

end Scriptlet.Parse

import Scriptlet.Proofs.Grammar
import Scriptlet.Proofs.Parsing.Reading

/-! What a parser returns without a report is spelled by the tokens it passed. The fuel plays no
part: it only bounds the induction. -/
namespace Scriptlet.Parse

open Grammar

variable {n room : Nat} {s r : State}

theorem reference_spelledBy {name : Token} {use : Unit} {level : Level} {ts : List Token}
    (h : (Phrase.expr level (.reference name use)).SpelledBy ts) :
    ts = [name] ∧ name.kind = .identifier := by
  generalize hp : Phrase.expr level (.reference name use) = p at h
  induction h generalizing level with
  | tighter inner ih =>
    obtain ⟨rfl, rfl⟩ := Phrase.expr.inj hp
    exact ih rfl
  | reference hname =>
    obtain ⟨-, he⟩ := Phrase.expr.inj hp
    obtain ⟨rfl, -⟩ := Expr.reference.inj he
    exact ⟨rfl, hname⟩
  | _ => cases hp

/-- The grammar functions of expressions with this much fuel. -/
structure SoundExpr (n : Nat) : Prop where
  expr {room : Nat} {level : Level} {s r : State} {e : Expr Unit}
    (h : expr n room level s = .ok e r)
    (hr : r.reports = []) : ∃ ts, Reads s ts r ∧ (Phrase.expr level e).SpelledBy ts
  operands {room : Nat} {level : Level} {s r : State} {left e : Expr Unit}
    (h : operands n room level left s = .ok e r) (hr : r.reports = []) :
    ∃ ts, Reads s ts r ∧ ∀ us, (Phrase.expr level left).SpelledBy us →
      (Phrase.expr level e).SpelledBy (us ++ ts)
  calls {room : Nat} {s r : State} {callee e : Expr Unit}
    (h : calls n room callee s = .ok e r) (hr : r.reports = []) :
    ∃ ts, Reads s ts r ∧ ∀ us, (Phrase.expr .call callee).SpelledBy us →
      (Phrase.expr .call e).SpelledBy (us ++ ts)
  arguments {room : Nat} {count : Nat} {s r : State} {es : List (Expr Unit)}
    (h : arguments n room count s = .ok es r) (hr : r.reports = []) :
    ∃ ts, Reads s ts r ∧ (Phrase.arguments es).SpelledBy ts ∧ es ≠ [] ∧
      count + es.length ≤ maxArguments

theorem expr_sound_assignment (ih : SoundExpr n) {e : Expr Unit}
    (h : expr (n + 1) (room + 1) .assignment s = .ok e r) (hr : r.reports = []) :
    ∃ ts, Reads s ts r ∧ (Phrase.expr .assignment e).SpelledBy ts := by
  rw [expr, bind_eq_ok] at h
  obtain ⟨target, s₁, htarget, h⟩ := h
  obtain ⟨o, s₂, ho, h⟩ := bind_eq_ok.1 h
  cases o with
  | none =>
    obtain ⟨rfl, rfl⟩ := pure_eq_ok.1 h
    obtain ⟨-, rfl⟩ := accept_none ho
    obtain ⟨ts, hts, hspelled⟩ := ih.expr htarget hr
    exact ⟨ts, hts, .tighter hspelled⟩
  | some equals =>
    obtain ⟨value, s₃, hvalue, h⟩ := bind_eq_ok.1 h
    cases target with
    | reference name use =>
      obtain ⟨rfl, rfl⟩ := pure_eq_ok.1 h
      obtain ⟨vs, hvs, hvalue⟩ := ih.expr hvalue hr
      obtain ⟨hk, hequals⟩ := accept_some_reads ho (by decide) hvs.clean
      obtain ⟨ts, hts, hspelled⟩ := ih.expr htarget hequals.clean
      obtain ⟨rfl, hname⟩ := reference_spelledBy hspelled
      exact ⟨_, (hts.trans hequals).trans hvs, .assign hname (by simpa using hk) hvalue⟩
    | _ =>
      -- whatever else stands before the sign is reported
      obtain ⟨_, s₄, hreport, h⟩ := bind_eq_ok.1 h
      obtain ⟨-, rfl⟩ := pure_eq_ok.1 h
      exact absurd hr (report_unclean hreport)

theorem expr_sound_conditional (ih : SoundExpr n) {e : Expr Unit}
    (h : expr (n + 1) (room + 1) .conditional s = .ok e r) (hr : r.reports = []) :
    ∃ ts, Reads s ts r ∧ (Phrase.expr .conditional e).SpelledBy ts := by
  rw [expr, bind_eq_ok] at h
  obtain ⟨condition, s₁, hcondition, h⟩ := h
  obtain ⟨o, s₂, ho, h⟩ := bind_eq_ok.1 h
  cases o with
  | none =>
    obtain ⟨rfl, rfl⟩ := pure_eq_ok.1 h
    obtain ⟨-, rfl⟩ := accept_none ho
    obtain ⟨ts, hts, hspelled⟩ := ih.expr hcondition hr
    exact ⟨ts, hts, .tighter hspelled⟩
  | some question =>
    obtain ⟨yes, s₃, hyes, h⟩ := bind_eq_ok.1 h
    obtain ⟨colon, s₄, hcolon, h⟩ := bind_eq_ok.1 h
    obtain ⟨no, s₅, hno, h⟩ := bind_eq_ok.1 h
    obtain ⟨rfl, rfl⟩ := pure_eq_ok.1 h
    obtain ⟨vs, hvs, hno⟩ := ih.expr hno hr
    obtain ⟨hcolon, hreads⟩ := expect_reads hcolon hvs.clean
    obtain ⟨us, hus, hyes⟩ := ih.expr hyes hreads.clean
    obtain ⟨hk, hquestion⟩ := accept_some_reads ho (by decide) hus.clean
    obtain ⟨ts, hts, hcondition⟩ := ih.expr hcondition hquestion.clean
    refine ⟨_, hts.trans (hquestion.trans (hus.trans (hreads.trans hvs))), ?_⟩
    exact .conditional (by simpa using hk) hcolon hcondition hyes hno

theorem expr_sound_unary (ih : SoundExpr n) {e : Expr Unit}
    (h : expr (n + 1) (room + 1) .unary s = .ok e r) (hr : r.reports = []) :
    ∃ ts, Reads s ts r ∧ (Phrase.expr .unary e).SpelledBy ts := by
  rw [expr, bind_eq_ok] at h
  obtain ⟨o, s₁, ho, h⟩ := h
  cases o with
  | none =>
    obtain ⟨-, rfl⟩ := accept_none ho
    obtain ⟨ts, hts, hspelled⟩ := ih.expr h hr
    exact ⟨ts, hts, .tighter hspelled⟩
  | some op =>
    obtain ⟨right, s₂, hright, h⟩ := bind_eq_ok.1 h
    obtain ⟨rfl, rfl⟩ := pure_eq_ok.1 h
    obtain ⟨ts, hts, hright⟩ := ih.expr hright hr
    obtain ⟨hk, hop⟩ := accept_some_reads ho (by decide) hts.clean
    exact ⟨_, hop.trans hts, .unary hk hright⟩

theorem literal_sound {value : Literal} {e : Expr Unit} (h : literal value s = .ok e r)
    (hs : s.current.kind ≠ .eof) (hr : r.reports = []) :
    e = .literal value ∧ Reads s [s.current] r := by
  obtain ⟨t, s₁, ht, h⟩ := bind_eq_ok.1 h
  obtain ⟨rfl, rfl⟩ := pure_eq_ok.1 h
  have hreads := advance_reads ht hs hr
  exact ⟨rfl, hreads.current.symm ▸ hreads⟩

theorem expr_sound_primary (ih : SoundExpr n) {e : Expr Unit}
    (h : expr (n + 1) (room + 1) .primary s = .ok e r) (hr : r.reports = []) :
    ∃ ts, Reads s ts r ∧ (Phrase.expr .primary e).SpelledBy ts := by
  rw [expr, peek_bind_eq_ok] at h
  generalize hk : s.current.kind = k at h
  split at h
  next =>
    obtain ⟨rfl, hreads⟩ := literal_sound h (by simp [hk]) hr
    exact ⟨_, hreads, .kwFalse hk⟩
  next =>
    obtain ⟨rfl, hreads⟩ := literal_sound h (by simp [hk]) hr
    exact ⟨_, hreads, .kwTrue hk⟩
  next =>
    obtain ⟨rfl, hreads⟩ := literal_sound h (by simp [hk]) hr
    exact ⟨_, hreads, .kwNil hk⟩
  next =>
    obtain ⟨t, s₁, ht, h⟩ := bind_eq_ok.1 h
    cases hx : readNumber? t.lexeme with
    | none => simp [hx, halt] at h
    | some x =>
      rw [hx] at h
      obtain ⟨rfl, rfl⟩ := pure_eq_ok.1 h
      have hreads := advance_reads ht (by simp [hk]) hr
      exact ⟨_, hreads, .number (hreads.current ▸ hk) hx⟩
  next =>
    obtain ⟨t, s₁, ht, h⟩ := bind_eq_ok.1 h
    obtain ⟨rfl, rfl⟩ := pure_eq_ok.1 h
    have hreads := advance_reads ht (by simp [hk]) hr
    exact ⟨_, hreads, .string (hreads.current ▸ hk)⟩
  next =>
    obtain ⟨left, s₁, hleft, h⟩ := bind_eq_ok.1 h
    obtain ⟨inner, s₂, hinner, h⟩ := bind_eq_ok.1 h
    obtain ⟨right, s₃, hright, h⟩ := bind_eq_ok.1 h
    obtain ⟨rfl, rfl⟩ := pure_eq_ok.1 h
    obtain ⟨hright, hclose⟩ := expect_reads hright hr
    obtain ⟨ts, hts, hinner⟩ := ih.expr hinner hclose.clean
    have hopen := advance_reads hleft (by simp [hk]) hts.clean
    exact ⟨_, hopen.trans (hts.trans hclose), .grouping (hopen.current ▸ hk) hright hinner⟩
  next =>
    obtain ⟨name, s₁, hname, h⟩ := bind_eq_ok.1 h
    obtain ⟨rfl, rfl⟩ := pure_eq_ok.1 h
    have hreads := advance_reads hname (by simp [hk]) hr
    exact ⟨_, hreads, .reference (hreads.current ▸ hk)⟩
  next => simp [fail] at h

theorem operands_sound (ih : SoundExpr n) {level : Level} {left e : Expr Unit}
    (h : operands (n + 1) room level left s = .ok e r) (hr : r.reports = []) :
    ∃ ts, Reads s ts r ∧ ∀ us, (Phrase.expr level left).SpelledBy us →
      (Phrase.expr level e).SpelledBy (us ++ ts) := by
  rw [operands, bind_eq_ok] at h
  obtain ⟨o, s₁, ho, h⟩ := h
  cases o with
  | none =>
    obtain ⟨rfl, rfl⟩ := pure_eq_ok.1 h
    obtain ⟨-, rfl⟩ := accept_none ho
    exact ⟨[], .refl hr, by simp⟩
  | some op =>
    obtain ⟨right, s₂, hright, h⟩ := bind_eq_ok.1 h
    obtain ⟨vs, hvs, hrest⟩ := ih.operands h hr
    obtain ⟨ts, hts, hright⟩ := ih.expr hright hvs.clean
    have heof : .eof ∉ level.operators := by cases level <;> decide
    obtain ⟨hk, hop⟩ := accept_some_reads ho heof hts.clean
    refine ⟨_, hop.trans (hts.trans hvs), fun us hleft => ?_⟩
    simpa using hrest _ (.binary hk hleft hright)

theorem calls_sound (ih : SoundExpr n) {callee e : Expr Unit}
    (h : calls (n + 1) room callee s = .ok e r) (hr : r.reports = []) :
    ∃ ts, Reads s ts r ∧ ∀ us, (Phrase.expr .call callee).SpelledBy us →
      (Phrase.expr .call e).SpelledBy (us ++ ts) := by
  rw [calls_succ, bind_eq_ok] at h
  obtain ⟨o, s₁, ho, h⟩ := h
  cases o with
  | none =>
    obtain ⟨rfl, rfl⟩ := pure_eq_ok.1 h
    obtain ⟨-, rfl⟩ := accept_none ho
    exact ⟨[], .refl hr, by simp⟩
  | some left =>
    obtain ⟨args, s₂, hargs, h⟩ := bind_eq_ok.1 h
    obtain ⟨right, s₃, hright, h⟩ := bind_eq_ok.1 h
    obtain ⟨vs, hvs, hrest⟩ := ih.calls h hr
    obtain ⟨hright, hclose⟩ := expect_reads hright hvs.clean
    have hlist : ∃ ts, Reads s₁ ts s₂ ∧ (Phrase.arguments args).SpelledBy ts ∧
        args.length ≤ maxArguments := by
      obtain ⟨rfl, rfl⟩ | hargs := unlessAt_eq_ok hargs
      · exact ⟨[], .refl hclose.clean, .noArgument, Nat.zero_le _⟩
      · obtain ⟨ts, hts, hspelled, -, hmany⟩ := ih.arguments hargs hclose.clean
        exact ⟨ts, hts, hspelled, by omega⟩
    obtain ⟨ts, hts, hargs, hmany⟩ := hlist
    obtain ⟨hk, hopen⟩ := accept_some_reads ho (by decide) hts.clean
    refine ⟨_, hopen.trans (hts.trans (hclose.trans hvs)), fun us hcallee => ?_⟩
    have hcall := Phrase.SpelledBy.call (by simpa using hk) hright hmany hcallee hargs
    simpa using hrest _ hcall

theorem arguments_sound (ih : SoundExpr n) {count : Nat} {es : List (Expr Unit)}
    (h : arguments (n + 1) room count s = .ok es r) (hr : r.reports = []) :
    ∃ ts, Reads s ts r ∧ (Phrase.arguments es).SpelledBy ts ∧ es ≠ [] ∧
      count + es.length ≤ maxArguments := by
  rw [arguments_succ, bind_eq_ok] at h
  obtain ⟨_, s₁, hcount, h⟩ := h
  obtain ⟨first, s₂, hfirst, h⟩ := bind_eq_ok.1 h
  obtain ⟨o, s₃, ho, h⟩ := bind_eq_ok.1 h
  cases o with
  | none =>
    obtain ⟨rfl, rfl⟩ := pure_eq_ok.1 h
    obtain ⟨-, rfl⟩ := accept_none ho
    obtain ⟨ts, hts, hspelled⟩ := ih.expr hfirst hr
    obtain ⟨hfew, rfl⟩ := complainIf_clean (fun _ _ => reportHere_unclean) hcount hts.clean
    have := of_decide_eq_false hfew
    exact ⟨ts, hts, .oneArgument hspelled, by simp, by simp; omega⟩
  | some comma =>
    obtain ⟨rest, s₄, hrest, h⟩ := bind_eq_ok.1 h
    obtain ⟨rfl, rfl⟩ := pure_eq_ok.1 h
    obtain ⟨us, hus, hrest, hne, hmany⟩ := ih.arguments hrest hr
    obtain ⟨hk, hcomma⟩ := accept_some_reads ho (by decide) hus.clean
    obtain ⟨ts, hts, hspelled⟩ := ih.expr hfirst hcomma.clean
    obtain ⟨-, rfl⟩ := complainIf_clean (fun _ _ => reportHere_unclean) hcount hts.clean
    obtain ⟨second, others, rfl⟩ := List.exists_cons_of_ne_nil hne
    refine ⟨_, hts.trans (hcomma.trans hus), ?_, by simp, by simp at hmany ⊢; omega⟩
    exact .moreArguments (by simpa using hk) hspelled hrest

theorem soundExpr (n : Nat) : SoundExpr n := by
  induction n with
  | zero =>
    exact ⟨fun h _ => by simp [expr, halt] at h, fun h _ => by simp [operands, halt] at h,
      fun h _ => by simp [calls, halt] at h, fun h _ => by simp [arguments, halt] at h⟩
  | succ n ih =>
    refine ⟨fun {room level s r e} h hr => ?_, operands_sound ih, calls_sound ih,
      arguments_sound ih⟩
    have hjoined {room : Nat} {level : Level}
        (h : (expr n room level.tighter >>= operands n room level) s = .ok e r) :
        ∃ ts, Reads s ts r ∧ (Phrase.expr level e).SpelledBy ts := by
      obtain ⟨left, s₁, hleft, h⟩ := bind_eq_ok.1 h
      obtain ⟨us, hus, hrest⟩ := ih.operands h hr
      obtain ⟨ts, hts, hleft⟩ := ih.expr hleft hus.clean
      exact ⟨_, hts.trans hus, hrest _ (.tighter hleft)⟩
    cases room with
    | zero => simp [expr, halt] at h
    | succ room => cases level with
      | assignment => exact expr_sound_assignment ih h hr
      | conditional => exact expr_sound_conditional ih h hr
      | unary => exact expr_sound_unary ih h hr
      | primary => exact expr_sound_primary ih h hr
      | call =>
        obtain ⟨callee, s₁, hcallee, h⟩ := bind_eq_ok.1 h
        obtain ⟨us, hus, hrest⟩ := ih.calls h hr
        obtain ⟨ts, hts, hcallee⟩ := ih.expr hcallee hus.clean
        exact ⟨_, hts.trans hus, hrest _ (.tighter hcallee)⟩
      | _ => exact hjoined h

theorem expr_sound {level : Level} {e : Expr Unit} (h : expr n room level s = .ok e r)
    (hr : r.reports = []) : ∃ ts, Reads s ts r ∧ (Phrase.expr level e).SpelledBy ts :=
  (soundExpr n).expr h hr

theorem optional_sound {stop : Kind} {o : Option (Expr Unit)}
    (h : unlessAt stop none (some <$> expr n room .comma) s = .ok o r) (hr : r.reports = []) :
    ∃ ts, Reads s ts r ∧ OptionalSpelledBy o ts := by
  obtain ⟨rfl, rfl⟩ | h := unlessAt_eq_ok h
  · exact ⟨[], .refl hr, .absent⟩
  · obtain ⟨e, he, rfl⟩ := map_eq_ok.1 h
    obtain ⟨ts, hts, he⟩ := expr_sound he hr
    exact ⟨ts, hts, .present he⟩

theorem parenthesized_sound {left right : Slot} {e : Expr Unit}
    (h : parenthesized n room left right s = .ok e r) (hr : r.reports = []) :
    ∃ ts t u, Reads s (t :: (ts ++ [u])) r ∧ t.kind = left.kind ∧ u.kind = right.kind ∧
      ExprSpelledBy e ts := by
  obtain ⟨t, s₁, ht, h⟩ := bind_eq_ok.1 h
  obtain ⟨e', s₂, he, h⟩ := bind_eq_ok.1 h
  obtain ⟨u, s₃, hu, h⟩ := bind_eq_ok.1 h
  obtain ⟨rfl, rfl⟩ := pure_eq_ok.1 h
  obtain ⟨hu, hclose⟩ := expect_reads hu hr
  obtain ⟨ts, hts, he⟩ := expr_sound he hclose.clean
  obtain ⟨ht, hopen⟩ := expect_reads ht hts.clean
  exact ⟨ts, t, u, hopen.trans (hts.trans hclose), ht, hu, he⟩

/-- An expression and the token that ends it. -/
theorem terminated_sound {α : Type} {slot : Slot} {f : Expr Unit → α} {a : α}
    (h : (do let e ← expr n room .comma; let _ ← expect slot; return f e) s = .ok a r)
    (hr : r.reports = []) :
    ∃ e ts t, a = f e ∧ Reads s (ts ++ [t]) r ∧ t.kind = slot.kind ∧ ExprSpelledBy e ts := by
  obtain ⟨e, s₁, he, h⟩ := bind_eq_ok.1 h
  obtain ⟨t, s₂, ht, h⟩ := bind_eq_ok.1 h
  obtain ⟨rfl, rfl⟩ := pure_eq_ok.1 h
  obtain ⟨ht, hend⟩ := expect_reads ht hr
  obtain ⟨ts, hts, he⟩ := expr_sound he hend.clean
  exact ⟨e, ts, t, rfl, hts.trans hend, ht, he⟩

theorem varDeclaration_sound {st : Stmt Unit} (h : varDeclaration n room s = .ok st r)
    (hr : r.reports = []) : ∃ ts, Reads s ts r ∧ VarSpelledBy st ts := by
  rw [varDeclaration_eq, bind_eq_ok] at h
  obtain ⟨name, s₁, hname, h⟩ := h
  obtain ⟨init, s₂, hinit, h⟩ := bind_eq_ok.1 h
  obtain ⟨semicolon, s₃, hsemicolon, h⟩ := bind_eq_ok.1 h
  obtain ⟨rfl, rfl⟩ := pure_eq_ok.1 h
  obtain ⟨hstop, hend⟩ := expect_reads hsemicolon hr
  obtain ⟨o, s₄, ho, hinit⟩ := bind_eq_ok.1 hinit
  cases o with
  | none =>
    obtain ⟨rfl, rfl⟩ := pure_eq_ok.1 hinit
    obtain ⟨-, rfl⟩ := accept_none ho
    obtain ⟨hname, hfirst⟩ := expect_reads hname hend.clean
    exact ⟨_, hfirst.trans hend, .plain hname hstop⟩
  | some equals =>
    obtain ⟨e, he, rfl⟩ := map_eq_ok.1 hinit
    obtain ⟨ts, hts, he⟩ := expr_sound he hend.clean
    obtain ⟨hk, hequals⟩ := accept_some_reads ho (by decide) hts.clean
    obtain ⟨hname, hfirst⟩ := expect_reads hname hequals.clean
    refine ⟨_, hfirst.trans (hequals.trans (hts.trans hend)), ?_⟩
    exact .initialized hname (by simpa using hk) hstop he

theorem forInit_sound {init : Option (Stmt Unit)} (h : forInit n room s = .ok init r)
    (hr : r.reports = []) : ∃ ts, Reads s ts r ∧ InitSpelledBy init ts := by
  rw [forInit, peek_bind_eq_ok] at h
  generalize hk : s.current.kind = k at h
  split at h
  next =>
    obtain ⟨keyword, s₁, hkeyword, h⟩ := bind_eq_ok.1 h
    obtain ⟨st, hst, rfl⟩ := map_eq_ok.1 h
    obtain ⟨ts, hts, hst⟩ := varDeclaration_sound hst hr
    have hfirst := advance_reads hkeyword (by simp [hk]) hts.clean
    exact ⟨_, hfirst.trans hts, .var (hfirst.current ▸ hk) hst⟩
  next =>
    obtain ⟨semicolon, s₁, hsemicolon, h⟩ := bind_eq_ok.1 h
    obtain ⟨rfl, rfl⟩ := pure_eq_ok.1 h
    have hfirst := advance_reads hsemicolon (by simp [hk]) hr
    exact ⟨_, hfirst, .absent (hfirst.current ▸ hk)⟩
  next =>
    obtain ⟨st, hst, rfl⟩ := map_eq_ok.1 h
    obtain ⟨e, ts, t, rfl, hts, ht, he⟩ := terminated_sound hst hr
    exact ⟨_, hts, .expression ht he⟩

/-- The head of a `for` loop; with a body it makes the tree that the grammar asks for. -/
theorem forHead_sound {head : ForHead} (h : forHead n room s = .ok head r) (hr : r.reports = []) :
    ∃ (init : Option (Stmt Unit)) (condition step : Option (Expr Unit)) (ts us vs : List Token)
      (left semicolon right : Token),
      Reads s (left :: (ts ++ (us ++ semicolon :: (vs ++ [right])))) r ∧
      left.kind = .leftParen ∧ semicolon.kind = .semicolon ∧ right.kind = .rightParen ∧
      InitSpelledBy init ts ∧ OptionalSpelledBy condition us ∧ OptionalSpelledBy step vs ∧
      ∀ body, head.loop body = forTree init condition step body := by
  rw [forHead_eq, bind_eq_ok] at h
  obtain ⟨left, s₁, hleft, h⟩ := h
  obtain ⟨init, s₂, hinit, h⟩ := bind_eq_ok.1 h
  obtain ⟨condition, s₃, hcondition, h⟩ := bind_eq_ok.1 h
  obtain ⟨semicolon, s₄, hsemicolon, h⟩ := bind_eq_ok.1 h
  obtain ⟨step, s₅, hstep, h⟩ := bind_eq_ok.1 h
  obtain ⟨right, s₆, hright, h⟩ := bind_eq_ok.1 h
  obtain ⟨rfl, rfl⟩ := pure_eq_ok.1 h
  obtain ⟨hright, hclose⟩ := expect_reads hright hr
  obtain ⟨vs, hvs, hstep⟩ := optional_sound hstep hclose.clean
  obtain ⟨hsemicolon, hmiddle⟩ := expect_reads hsemicolon hvs.clean
  have hoptional : ∃ o us, condition = o.getD (.literal (.bool true)) ∧ Reads s₂ us s₃ ∧
      OptionalSpelledBy o us := by
    obtain ⟨rfl, rfl⟩ | hcondition := unlessAt_eq_ok hcondition
    · exact ⟨none, [], rfl, .refl hmiddle.clean, .absent⟩
    · obtain ⟨us, hus, he⟩ := expr_sound hcondition hmiddle.clean
      exact ⟨some condition, us, rfl, hus, .present he⟩
  obtain ⟨o, us, rfl, hus, ho⟩ := hoptional
  obtain ⟨ts, hts, hinit⟩ := forInit_sound hinit hus.clean
  obtain ⟨hleft, hopen⟩ := expect_reads hleft hts.clean
  refine ⟨init, o, step, ts, us, vs, left, semicolon, right, ?_, hleft, hsemicolon, hright,
    hinit, ho, hstep, fun body => ?_⟩
  · exact hopen.trans (hts.trans (hus.trans (hmiddle.trans (hvs.trans hclose))))
  · cases init <;> cases step <;> rfl

theorem jumpStatement_sound {c : Context} {j : Jump} {keyword : Token} {st : Stmt Unit}
    (h : jumpStatement c j keyword s = .ok st r) (hr : r.reports = []) :
    c.inLoop = true ∧ st = .jump j keyword ∧
      ∃ semicolon, semicolon.kind = .semicolon ∧ Reads s [semicolon] r := by
  rw [jumpStatement_eq, bind_eq_ok] at h
  obtain ⟨_, s₁, hloop, h⟩ := h
  obtain ⟨semicolon, s₂, hsemicolon, h⟩ := bind_eq_ok.1 h
  obtain ⟨rfl, rfl⟩ := pure_eq_ok.1 h
  obtain ⟨hstop, hend⟩ := expect_reads hsemicolon hr
  obtain ⟨hinside, rfl⟩ := complainIf_clean (fun _ _ => report_unclean) hloop hend.clean
  exact ⟨by simpa using hinside, rfl, semicolon, hstop, hend⟩

theorem guardDepth_sound {c : Context} {u : Unit} (h : guardDepth c s = .ok u r) :
    c.depth ≤ maxNesting ∧ s = r := by
  unfold guardDepth at h
  split at h
  next => simp [halt] at h
  next hdepth => exact ⟨by omega, (pure_eq_ok.1 h).2⟩

theorem parameters_sound {count : Nat} {ps : List Token} (h : parameters n count s = .ok ps r)
    (hr : r.reports = []) :
    ∃ ts, Reads s ts r ∧ ParamsSpelledBy ps ts ∧ ps ≠ [] ∧ count + ps.length ≤ maxArguments := by
  induction n generalizing count s ps with
  | zero => simp [parameters, halt] at h
  | succ n ih =>
    rw [parameters_succ, bind_eq_ok] at h
    obtain ⟨_, s₁, hcount, h⟩ := h
    obtain ⟨first, s₂, hfirst, h⟩ := bind_eq_ok.1 h
    obtain ⟨o, s₃, ho, h⟩ := bind_eq_ok.1 h
    cases o with
    | none =>
      obtain ⟨rfl, rfl⟩ := pure_eq_ok.1 h
      obtain ⟨-, rfl⟩ := accept_none ho
      obtain ⟨hname, hts⟩ := expect_reads hfirst hr
      obtain ⟨hfew, rfl⟩ := complainIf_clean (fun _ _ => reportHere_unclean) hcount hts.clean
      have := of_decide_eq_false hfew
      exact ⟨_, hts, .one hname, by simp, by simp; omega⟩
    | some comma =>
      obtain ⟨rest, s₄, hrest, h⟩ := bind_eq_ok.1 h
      obtain ⟨rfl, rfl⟩ := pure_eq_ok.1 h
      obtain ⟨us, hus, hrest, hne, hmany⟩ := ih hrest
      obtain ⟨hk, hcomma⟩ := accept_some_reads ho (by decide) hus.clean
      obtain ⟨hname, hts⟩ := expect_reads hfirst hcomma.clean
      obtain ⟨-, rfl⟩ := complainIf_clean (fun _ _ => reportHere_unclean) hcount hts.clean
      obtain ⟨second, others, rfl⟩ := List.exists_cons_of_ne_nil hne
      refine ⟨_, hts.trans (hcomma.trans hus), ?_, by simp, by simp at hmany ⊢; omega⟩
      exact .more hname (by simpa using hk) hrest

theorem parameterList_sound {ps : List Token} (h : parameterList n s = .ok ps r)
    (hr : r.reports = []) :
    ∃ ts, Reads s ts r ∧ ParamsSpelledBy ps ts ∧ ps.length ≤ maxArguments := by
  obtain ⟨rfl, rfl⟩ | h := unlessAt_eq_ok h
  · exact ⟨[], .refl hr, .none, Nat.zero_le _⟩
  · obtain ⟨ts, hts, hps, -, hmany⟩ := parameters_sound h hr
    exact ⟨ts, hts, hps, by omega⟩

/-- Recovery leaves a report, so where there is none the parser inside succeeded. -/
theorem recovering_clean {α : Type} {inBlock : Bool} {p : Parser α} {o : Option α}
    (hp : Reporting p) (h : recovering inBlock p s = .ok o r) (hr : r.reports = []) :
    ∃ a, o = some a ∧ p s.calm = .ok a r := by
  have hs := hp s.calm
  unfold recovering at h
  cases hps : p s.calm with
  | ok a u =>
    simp only [hps, Result.ok.injEq] at h
    exact ⟨a, h.1.symm, h.2 ▸ rfl⟩
  | halt cause u => simp [hps] at h
  | bad u =>
    rw [hps, extends_bad] at hs
    cases hu : u.recover inBlock 0 with
    | none => simp [hps, hu] at h
    | some v =>
      simp only [hps, hu, Result.ok.injEq] at h
      have := State.reports_recover hu
      simp [h.2, hr, hs.2] at this

/-- The grammar functions of statements with this much fuel. A statement that ends with an open
`if` is not followed by an `else`: it would have been taken. -/
structure SoundStmt (n : Nat) : Prop where
  declaration {c : Context} {s r : State} {d : Option (Stmt Unit)}
    (h : declaration n c s = .ok d r) (hr : r.reports = []) :
    ∃ st ts, d = some st ∧ Reads s ts r ∧ (Clause.declaration c.inLoop c.depth st).SpelledBy ts
  function {c : Context} {s r : State} {st : Stmt Unit} (h : function n c s = .ok st r)
    (hr : r.reports = []) :
    ∃ ts, Reads s ts r ∧ ∀ keyword : Token, keyword.kind = .kwFunction →
      (Clause.declaration c.inLoop c.depth st).SpelledBy (keyword :: ts)
  statement {c : Context} {s r : State} {st : Stmt Unit} (h : statement n c s = .ok st r)
    (hr : r.reports = []) :
    ∃ ts dangling, Reads s ts r ∧
      (Clause.statement c.inLoop c.depth dangling st).SpelledBy ts ∧
      (dangling = true → r.current.kind ≠ .kwElse)
  block {c : Context} {s r : State} {ss : List (Stmt Unit)} (h : block n c s = .ok ss r)
    (hr : r.reports = []) :
    ∃ ts right, Reads s (ts ++ [right]) r ∧ right.kind = .rightBrace ∧
      (Clause.list c.inLoop c.depth ss).SpelledBy ts
  items {c : Context} {s r : State} {ss : List (Stmt Unit)} (h : items n c s = .ok ss r)
    (hr : r.reports = []) :
    ∃ ts, Reads s ts r ∧ (Clause.list c.inLoop c.depth ss).SpelledBy ts
  arms {c : Context} {s r : State} {as : Arms Unit} (h : arms n c s = .ok as r)
    (hr : r.reports = []) :
    ∃ ts, Reads s ts r ∧ (Clause.arms c.inLoop c.depth as).SpelledBy ts

theorem declaration_sound (ih : SoundStmt n) {c : Context} {d : Option (Stmt Unit)}
    (h : declaration (n + 1) c s = .ok d r) (hr : r.reports = []) :
    ∃ st ts, d = some st ∧ Reads s ts r ∧
      (Clause.declaration c.inLoop c.depth st).SpelledBy ts := by
  rw [declaration_succ] at h
  obtain ⟨st, rfl, hst⟩ :=
    recovering_clean (elementary_unrecovered (elementaryStmt n) c).reporting h hr
  rw [unrecovered, peek_bind_eq_ok] at hst
  have hcalm {ts : List Token} (h : Reads s.calm ts r) : Reads s ts r := ⟨h.clean, h.stream⟩
  generalize hk : s.calm.current.kind = k at hst
  split at hst
  next =>
    obtain ⟨keyword, s₁, hkeyword, hst⟩ := bind_eq_ok.1 hst
    obtain ⟨ts, hts, hspelled⟩ := ih.function hst hr
    have hfirst := advance_reads hkeyword (by simp [hk]) hts.clean
    exact ⟨st, _, rfl, hcalm (hfirst.trans hts), hspelled _ (hfirst.current ▸ hk)⟩
  next =>
    obtain ⟨keyword, s₁, hkeyword, hst⟩ := bind_eq_ok.1 hst
    obtain ⟨ts, hts, hspelled⟩ := varDeclaration_sound hst hr
    have hfirst := advance_reads hkeyword (by simp [hk]) hts.clean
    exact ⟨st, _, rfl, hcalm (hfirst.trans hts), .var (hfirst.current ▸ hk) hspelled⟩
  next =>
    obtain ⟨ts, dangling, hts, hspelled, -⟩ := ih.statement hst hr
    exact ⟨st, ts, rfl, hcalm hts, .plain hspelled⟩

theorem function_sound (ih : SoundStmt n) {c : Context} {st : Stmt Unit}
    (h : function (n + 1) c s = .ok st r) (hr : r.reports = []) :
    ∃ ts, Reads s ts r ∧ ∀ keyword : Token, keyword.kind = .kwFunction →
      (Clause.declaration c.inLoop c.depth st).SpelledBy (keyword :: ts) := by
  rw [function_succ, bind_eq_ok] at h
  obtain ⟨name, s₁, hname, h⟩ := h
  obtain ⟨left, s₂, hleft, h⟩ := bind_eq_ok.1 h
  obtain ⟨params, s₃, hparams, h⟩ := bind_eq_ok.1 h
  obtain ⟨right, s₄, hright, h⟩ := bind_eq_ok.1 h
  obtain ⟨leftBrace, s₅, hleftBrace, h⟩ := bind_eq_ok.1 h
  obtain ⟨_, s₆, hguard, h⟩ := bind_eq_ok.1 h
  obtain ⟨body, s₇, hbody, h⟩ := bind_eq_ok.1 h
  obtain ⟨rfl, rfl⟩ := pure_eq_ok.1 h
  obtain ⟨us, rightBrace, hus, hrightBrace, hspelled⟩ := ih.block hbody hr
  obtain ⟨hdepth, rfl⟩ := guardDepth_sound hguard
  obtain ⟨hleftBrace, hbrace⟩ := expect_reads hleftBrace hus.clean
  obtain ⟨hright, hclose⟩ := expect_reads hright hbrace.clean
  obtain ⟨ts, hts, hparams, hmany⟩ := parameterList_sound hparams hclose.clean
  obtain ⟨hleft, hopen⟩ := expect_reads hleft hts.clean
  obtain ⟨hname, hfirst⟩ := expect_reads hname hopen.clean
  refine ⟨_, hfirst.trans (hopen.trans (hts.trans (hclose.trans (hbrace.trans hus)))), ?_⟩
  intro keyword hkeyword
  exact .function hkeyword hname hleft hright hleftBrace hrightBrace hmany hdepth hparams hspelled

theorem items_sound (ih : SoundStmt n) {c : Context} {ss : List (Stmt Unit)}
    (h : items (n + 1) c s = .ok ss r) (hr : r.reports = []) :
    ∃ ts, Reads s ts r ∧ (Clause.list c.inLoop c.depth ss).SpelledBy ts := by
  rw [items, peek_bind_eq_ok] at h
  generalize s.current.kind = k at h
  split at h
  next =>
    obtain ⟨rfl, rfl⟩ := pure_eq_ok.1 h
    exact ⟨[], .refl hr, .nil⟩
  next =>
    obtain ⟨rfl, rfl⟩ := pure_eq_ok.1 h
    exact ⟨[], .refl hr, .nil⟩
  next =>
    obtain ⟨first, s₁, hfirst, h⟩ := bind_eq_ok.1 h
    obtain ⟨rest, s₂, hrest, h⟩ := bind_eq_ok.1 h
    obtain ⟨rfl, rfl⟩ := pure_eq_ok.1 h
    obtain ⟨us, hus, hrest⟩ := ih.items hrest hr
    obtain ⟨st, ts, rfl, hts, hst⟩ := ih.declaration hfirst hus.clean
    exact ⟨_, hts.trans hus, .cons hst hrest⟩

theorem arms_sound (ih : SoundStmt n) {c : Context} {as : Arms Unit}
    (h : arms (n + 1) c s = .ok as r) (hr : r.reports = []) :
    ∃ ts, Reads s ts r ∧ (Clause.arms c.inLoop c.depth as).SpelledBy ts := by
  rw [arms, peek_bind_eq_ok] at h
  generalize hk : s.current.kind = k at h
  split at h
  next =>
    obtain ⟨keyword, s₁, hkeyword, h⟩ := bind_eq_ok.1 h
    obtain ⟨condition, s₂, hcondition, h⟩ := bind_eq_ok.1 h
    obtain ⟨colon, s₃, hcolon, h⟩ := bind_eq_ok.1 h
    obtain ⟨body, s₄, hbody, h⟩ := bind_eq_ok.1 h
    obtain ⟨rest, s₅, hrest, h⟩ := bind_eq_ok.1 h
    obtain ⟨rfl, rfl⟩ := pure_eq_ok.1 h
    obtain ⟨vs, hvs, hrest⟩ := ih.arms hrest hr
    obtain ⟨us, dangling, hus, hbody, -⟩ := ih.statement hbody hvs.clean
    obtain ⟨hcolon, hmiddle⟩ := expect_reads hcolon hus.clean
    obtain ⟨ts, hts, hcondition⟩ := expr_sound hcondition hmiddle.clean
    have hfirst := advance_reads hkeyword (by simp [hk]) hts.clean
    refine ⟨_, hfirst.trans (hts.trans (hmiddle.trans (hus.trans hvs))), ?_⟩
    have hkind : keyword.kind = .kwCase := hfirst.current ▸ hk
    simpa using Clause.SpelledBy.case hkind hcolon hcondition hbody hrest
  next =>
    obtain ⟨keyword, s₁, hkeyword, h⟩ := bind_eq_ok.1 h
    obtain ⟨colon, s₂, hcolon, h⟩ := bind_eq_ok.1 h
    obtain ⟨body, s₃, hbody, h⟩ := bind_eq_ok.1 h
    obtain ⟨rfl, rfl⟩ := pure_eq_ok.1 h
    obtain ⟨us, dangling, hus, hbody, -⟩ := ih.statement hbody hr
    obtain ⟨hcolon, hmiddle⟩ := expect_reads hcolon hus.clean
    have hfirst := advance_reads hkeyword (by simp [hk]) hmiddle.clean
    exact ⟨_, hfirst.trans (hmiddle.trans hus), .otherwise (hfirst.current ▸ hk) hcolon hbody⟩
  next =>
    obtain ⟨rfl, rfl⟩ := pure_eq_ok.1 h
    exact ⟨[], .refl hr, .noArm⟩

/-- Behind its keyword the rest of a statement is read. If an `else` could be added to it, none
follows. -/
def ReadsRest (c : Context) (keyword : Token) (st : Stmt Unit) (s r : State) : Prop :=
  ∃ ts dangling, Reads s ts r ∧
    (Clause.form c.inLoop c.depth dangling st).SpelledBy (keyword :: ts) ∧
    (dangling = true → r.current.kind ≠ .kwElse)

theorem ReadsRest.closed {c : Context} {keyword : Token} {st : Stmt Unit} (hts : Reads s ts r)
    (hst : (Clause.form c.inLoop c.depth false st).SpelledBy (keyword :: ts)) :
    ReadsRest c keyword st s r := ⟨ts, false, hts, hst, nofun⟩

theorem ifStatement_sound (ih : SoundStmt n) {c : Context} {keyword : Token} {st : Stmt Unit}
    (hkeyword : keyword.kind = .kwIf) (hr : r.reports = [])
    (h : ifStatement n c s = .ok st r) :
    ReadsRest c keyword st s r := by
  obtain ⟨condition, s₁, hcondition, h⟩ := bind_eq_ok.1 h
  obtain ⟨yes, s₂, hyes, h⟩ := bind_eq_ok.1 h
  obtain ⟨o, s₃, ho, h⟩ := bind_eq_ok.1 h
  cases o with
  | none =>
    obtain ⟨rfl, rfl⟩ := pure_eq_ok.1 h
    obtain ⟨hnext, rfl⟩ := accept_none ho
    obtain ⟨us, dangling, hus, hyes, -⟩ := ih.statement hyes hr
    obtain ⟨ts, left, right, hts, hleft, hright, hcondition⟩ :=
      parenthesized_sound hcondition hus.clean
    refine ⟨_, true, hts.trans hus, ?_, fun _ => by simpa using hnext⟩
    simpa using Clause.SpelledBy.ifThen hkeyword hleft hright hcondition hyes
  | some kwElse =>
    obtain ⟨no, s₄, hno, h⟩ := bind_eq_ok.1 h
    obtain ⟨rfl, rfl⟩ := pure_eq_ok.1 h
    obtain ⟨vs, dangling, hvs, hno, hnext⟩ := ih.statement hno hr
    obtain ⟨hk, helse⟩ := accept_some_reads ho (by decide) hvs.clean
    have hk : kwElse.kind = .kwElse := by simpa using hk
    obtain ⟨us, inner, hus, hyes, hclosed⟩ := ih.statement hyes helse.clean
    -- the branch before the `else` would have taken it, had it been able to
    obtain rfl : inner = false := by
      cases inner with
      | false => rfl
      | true => exact absurd (helse.current ▸ hk) (hclosed rfl)
    obtain ⟨ts, left, right, hts, hleft, hright, hcondition⟩ :=
      parenthesized_sound hcondition hus.clean
    refine ⟨_, dangling, hts.trans (hus.trans (helse.trans hvs)), ?_, hnext⟩
    simpa using Clause.SpelledBy.ifElse hkeyword hleft hright hk hcondition hyes hno

theorem switchStatement_sound (ih : SoundStmt n) {c : Context} {keyword : Token} {st : Stmt Unit}
    (hkeyword : keyword.kind = .kwSwitch) (hr : r.reports = [])
    (h : switchStatement n c s = .ok st r) :
    ReadsRest c keyword st s r := by
  obtain ⟨subject, s₁, hsubject, h⟩ := bind_eq_ok.1 h
  obtain ⟨leftBrace, s₂, hleftBrace, h⟩ := bind_eq_ok.1 h
  obtain ⟨as, s₃, has, h⟩ := bind_eq_ok.1 h
  obtain ⟨rightBrace, s₄, hrightBrace, h⟩ := bind_eq_ok.1 h
  obtain ⟨rfl, rfl⟩ := pure_eq_ok.1 h
  obtain ⟨hrightBrace, hend⟩ := expect_reads hrightBrace hr
  obtain ⟨us, hus, has⟩ := ih.arms has hend.clean
  obtain ⟨hleftBrace, hbrace⟩ := expect_reads hleftBrace hus.clean
  obtain ⟨ts, left, right, hts, hleft, hright, hsubject⟩ :=
    parenthesized_sound hsubject hbrace.clean
  refine .closed (hts.trans (hbrace.trans (hus.trans hend))) ?_
  simpa using
    Clause.SpelledBy.switch hkeyword hleft hright hleftBrace hrightBrace hsubject has

theorem whileStatement_sound (ih : SoundStmt n) {c : Context} {keyword : Token} {st : Stmt Unit}
    (hkeyword : keyword.kind = .kwWhile) (hr : r.reports = [])
    (h : whileStatement n c s = .ok st r) :
    ReadsRest c keyword st s r := by
  obtain ⟨condition, s₁, hcondition, h⟩ := bind_eq_ok.1 h
  obtain ⟨body, s₂, hbody, h⟩ := bind_eq_ok.1 h
  obtain ⟨rfl, rfl⟩ := pure_eq_ok.1 h
  obtain ⟨us, dangling, hus, hbody, hnext⟩ := ih.statement hbody hr
  obtain ⟨ts, left, right, hts, hleft, hright, hcondition⟩ :=
    parenthesized_sound hcondition hus.clean
  have hbody : (Clause.statement true c.depth dangling body).SpelledBy us := hbody
  refine ⟨_, dangling, hts.trans hus, ?_, hnext⟩
  simpa using Clause.SpelledBy.whileLoop hkeyword hleft hright hcondition hbody

theorem forStatement_sound (ih : SoundStmt n) {c : Context} {keyword : Token} {st : Stmt Unit}
    (hkeyword : keyword.kind = .kwFor) (hr : r.reports = [])
    (h : forStatement n c s = .ok st r) :
    ReadsRest c keyword st s r := by
  obtain ⟨head, s₁, hhead, h⟩ := bind_eq_ok.1 h
  obtain ⟨body, s₂, hbody, h⟩ := bind_eq_ok.1 h
  obtain ⟨rfl, rfl⟩ := pure_eq_ok.1 h
  obtain ⟨ws, dangling, hws, hbody, hnext⟩ := ih.statement hbody hr
  obtain ⟨init, condition, step, ts, us, vs, left, semicolon, right, hts, hleft, hsemicolon,
    hright, hinit, hcondition, hstep, htree⟩ := forHead_sound hhead hws.clean
  have hbody : (Clause.statement true c.depth dangling body).SpelledBy ws := hbody
  refine ⟨_, dangling, hts.trans hws, ?_, hnext⟩
  rw [htree body]
  simpa using Clause.SpelledBy.forLoop hkeyword hleft hsemicolon hright hinit hcondition hstep hbody

theorem doStatement_sound (ih : SoundStmt n) {c : Context} {keyword : Token} {st : Stmt Unit}
    (hkeyword : keyword.kind = .kwDo) (hr : r.reports = [])
    (h : doStatement n c s = .ok st r) :
    ReadsRest c keyword st s r := by
  obtain ⟨body, s₁, hbody, h⟩ := bind_eq_ok.1 h
  obtain ⟨kwWhile, s₂, hwhile, h⟩ := bind_eq_ok.1 h
  obtain ⟨condition, s₃, hcondition, h⟩ := bind_eq_ok.1 h
  obtain ⟨semicolon, s₄, hsemicolon, h⟩ := bind_eq_ok.1 h
  obtain ⟨rfl, rfl⟩ := pure_eq_ok.1 h
  obtain ⟨hstop, hend⟩ := expect_reads hsemicolon hr
  obtain ⟨us, left, right, hus, hleft, hright, hcondition⟩ :=
    parenthesized_sound hcondition hend.clean
  obtain ⟨hwhile, hmiddle⟩ := expect_reads hwhile hus.clean
  obtain ⟨ts, dangling, hts, hbody, -⟩ := ih.statement hbody hmiddle.clean
  have hbody : (Clause.statement true c.depth dangling body).SpelledBy ts := hbody
  refine .closed (hts.trans (hmiddle.trans (hus.trans hend))) ?_
  simpa using Clause.SpelledBy.doLoop hkeyword hwhile hleft hright hstop hbody hcondition

theorem returnStatement_sound {c : Context} {keyword : Token} {st : Stmt Unit}
    (hkeyword : keyword.kind = .kwReturn) (hr : r.reports = [])
    (h : returnStatement n room keyword s = .ok st r) :
    ReadsRest c keyword st s r := by
  rw [returnStatement_eq, bind_eq_ok] at h
  obtain ⟨value, s₁, hvalue, h⟩ := h
  obtain ⟨semicolon, s₂, hsemicolon, h⟩ := bind_eq_ok.1 h
  obtain ⟨rfl, rfl⟩ := pure_eq_ok.1 h
  obtain ⟨hstop, hend⟩ := expect_reads hsemicolon hr
  obtain ⟨ts, hts, hvalue⟩ := optional_sound hvalue hend.clean
  exact .closed (hts.trans hend) (.give hkeyword hstop hvalue)

theorem blockStatement_sound (ih : SoundStmt n) {c : Context} {left : Token} {st : Stmt Unit}
    (hleft : left.kind = .leftBrace) (hr : r.reports = [])
    (h : blockStatement n c s = .ok st r) : ReadsRest c left st s r := by
  obtain ⟨ss, s₁, hss, h⟩ := bind_eq_ok.1 h
  obtain ⟨rfl, rfl⟩ := pure_eq_ok.1 h
  obtain ⟨ts, right, hts, hright, hss⟩ := ih.block hss hr
  exact .closed hts (.block hleft hright hss)

theorem printStatement_sound {c : Context} {keyword : Token} {st : Stmt Unit}
    (hkeyword : keyword.kind = .kwPrint) (hr : r.reports = [])
    (h : printStatement n room s = .ok st r) : ReadsRest c keyword st s r := by
  obtain ⟨e, ts, t, rfl, hts, ht, he⟩ := terminated_sound h hr
  exact .closed hts (.print hkeyword ht he)

/-- A statement with a keyword is read if the rest of it is. -/
theorem keyword_sound {c : Context} {k : Kind} {f : Token → Parser (Stmt Unit)} {st : Stmt Unit}
    (hk : s.current.kind = k) (heof : k ≠ .eof)
    (hf : ∀ {keyword s₁}, keyword.kind = k → f keyword s₁ = .ok st r →
      ReadsRest c keyword st s₁ r)
    (h : (advance >>= f) s = .ok st r) :
    ∃ ts dangling, Reads s ts r ∧ (Clause.form c.inLoop c.depth dangling st).SpelledBy ts ∧
      (dangling = true → r.current.kind ≠ .kwElse) := by
  obtain ⟨keyword, s₁, hkeyword, h⟩ := bind_eq_ok.1 h
  obtain ⟨ts, dangling, hts, hst, hnext⟩ := hf (advance_eq_current hkeyword ▸ hk) h
  have hfirst := advance_reads hkeyword (by simpa [hk] using heof) hts.clean
  exact ⟨_, dangling, hfirst.trans hts, hst, hnext⟩

theorem form_sound (ih : SoundStmt n) {c : Context} {st : Stmt Unit}
    (h : form n c s = .ok st r) (hr : r.reports = []) :
    ∃ ts dangling, Reads s ts r ∧ (Clause.form c.inLoop c.depth dangling st).SpelledBy ts ∧
      (dangling = true → r.current.kind ≠ .kwElse) := by
  rw [form, peek_bind_eq_ok] at h
  generalize hk : s.current.kind = k at h
  split at h
  next => exact keyword_sound hk nofun (fun hkind => printStatement_sound hkind hr) h
  next => exact keyword_sound hk nofun (fun hkind => blockStatement_sound ih hkind hr) h
  next => exact keyword_sound hk nofun (fun hkind => ifStatement_sound ih hkind hr) h
  next => exact keyword_sound hk nofun (fun hkind => switchStatement_sound ih hkind hr) h
  next => exact keyword_sound hk nofun (fun hkind => whileStatement_sound ih hkind hr) h
  next => exact keyword_sound hk nofun (fun hkind => forStatement_sound ih hkind hr) h
  next => exact keyword_sound hk nofun (fun hkind => doStatement_sound ih hkind hr) h
  next =>
    refine keyword_sound hk nofun (fun hkind h => ?_) h
    obtain ⟨hloop, rfl, semicolon, ht, hts⟩ := jumpStatement_sound h hr
    exact .closed hts (hloop ▸ .exit hkind ht)
  next =>
    refine keyword_sound hk nofun (fun hkind h => ?_) h
    obtain ⟨hloop, rfl, semicolon, ht, hts⟩ := jumpStatement_sound h hr
    exact .closed hts (hloop ▸ .again hkind ht)
  next => exact keyword_sound hk nofun (fun hkind => returnStatement_sound hkind hr) h
  next =>
    obtain ⟨e, ts, t, rfl, hts, ht, he⟩ := terminated_sound h hr
    exact ⟨_, false, hts, .expression ht he, nofun⟩

theorem statement_sound (ih : SoundStmt n) {outer : Context} {st : Stmt Unit}
    (h : statement (n + 1) outer s = .ok st r) (hr : r.reports = []) :
    ∃ ts dangling, Reads s ts r ∧
      (Clause.statement outer.inLoop outer.depth dangling st).SpelledBy ts ∧
      (dangling = true → r.current.kind ≠ .kwElse) := by
  rw [statement_succ, bind_eq_ok] at h
  obtain ⟨_, s₁, hguard, h⟩ := h
  obtain ⟨hdepth, rfl⟩ := guardDepth_sound hguard
  obtain ⟨ts, dangling, hts, hst, hnext⟩ := form_sound ih h hr
  exact ⟨ts, dangling, hts, .nested hdepth hst, hnext⟩

theorem soundStmt (n : Nat) : SoundStmt n := by
  induction n with
  | zero =>
    exact ⟨fun h _ => by simp [declaration, halt] at h, fun h _ => by simp [function, halt] at h,
      fun h _ => by simp [statement, halt] at h, fun h _ => by simp [block, halt] at h,
      fun h _ => by simp [items, halt] at h, fun h _ => by simp [arms, halt] at h⟩
  | succ n ih =>
    refine ⟨declaration_sound ih, function_sound ih, statement_sound ih, fun h hr => ?_,
      items_sound ih, arms_sound ih⟩
    obtain ⟨body, s₁, hbody, h⟩ := bind_eq_ok.1 h
    obtain ⟨right, s₂, hright, h⟩ := bind_eq_ok.1 h
    obtain ⟨rfl, rfl⟩ := pure_eq_ok.1 h
    obtain ⟨hright, hclose⟩ := expect_reads hright hr
    obtain ⟨ts, hts, hbody⟩ := ih.items hbody hclose.clean
    exact ⟨ts, right, hts.trans hclose, hright, hbody⟩

/-- Declarations through the end, without a report. -/
theorem program_sound {statements : List (Stmt Unit)} (h : program n room s = (statements, .done r))
    (hr : r.reports = []) :
    ∃ ts, Reads s ts r ∧ ProgramSpelledBy statements ts ∧ r.current.kind = .eof := by
  induction n generalizing s statements with
  | zero => simp [program] at h
  | succ n ih =>
    unfold program at h
    split at h
    next hend =>
      obtain ⟨rfl, hdone⟩ := Prod.mk.inj h
      obtain rfl := Ending.done.inj hdone
      exact ⟨[], .refl hr, .nil, eq_of_beq hend⟩
    next =>
      have hreporting := ((elementaryStmt n).declaration (.top room)).reporting s
      cases hd : declaration n (.top room) s with
      | ok d u =>
        simp only [hd] at h
        cases hrest : program n room u with
        | mk rest ending =>
          rw [hrest] at h
          obtain ⟨rfl, rfl⟩ := Prod.mk.inj h
          obtain ⟨us, hus, hspelled, hend⟩ := ih hrest
          obtain ⟨st, ts, rfl, hts, hst⟩ := (soundStmt n).declaration hd hus.clean
          exact ⟨_, hts.trans hus, .cons hst hspelled, hend⟩
      | bad u =>
        simp only [hd] at h hreporting
        obtain rfl := Ending.done.inj (Prod.mk.inj h).2
        exact absurd hr hreporting.2
      | halt cause u => simp [hd] at h

/-- Without a report, the tokens up to the first end spell the program. -/
theorem parse_reads {tokens : List Token} {statements : List (Stmt Unit)}
    (h : parse room tokens = .ok ⟨statements, []⟩) :
    ∃ ts eof rest, tokens = ts ++ eof :: rest ∧ eof.kind = .eof ∧
      ProgramSpelledBy statements ts := by
  unfold parse at h
  cases hstart : State.start? tokens with
  | none => simp [hstart] at h
  | some s =>
    simp only [hstart] at h
    cases hprogram : program (rulesPerToken * (tokens.length + 2)) (operandRules + room) s with
    | mk found ending =>
      rw [hprogram] at h
      cases ending with
      | halted cause r => cases cause <;> simp [Ending.close, State.report] at h
      | done r =>
        simp only [Ending.close, Except.ok.injEq, Parsed.mk.injEq] at h
        obtain ⟨rfl, hr⟩ := h
        obtain ⟨us, hus, hspelled, hend⟩ := program_sound hprogram hr
        obtain ⟨-, hstream⟩ := pullFrom_clean hstart hus.clean
        exact ⟨us, r.current, r.rest, hstream.trans hus.stream, hend, hspelled⟩

/-- Where the end stands only at the end, all other tokens spell the program. -/
theorem parse_spelledBy {ts : List Token} {eof : Token} {statements : List (Stmt Unit)}
    (hts : ∀ t ∈ ts, t.kind ≠ .eof)
    (h : parse room (ts ++ [eof]) = .ok ⟨statements, []⟩) : ProgramSpelledBy statements ts := by
  obtain ⟨us, eof', rest, hall, heof, hspelled⟩ := parse_reads h
  exact eof_unique hts heof hall ▸ hspelled

end Scriptlet.Parse

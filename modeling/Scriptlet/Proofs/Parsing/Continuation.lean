import Scriptlet.Proofs.Parsing.Completeness
import Scriptlet.Proofs.Parsing.Resume

/-! A program with other tokens after it is parsed as it is without them, and they as they are
without it. Only an `if` asks for the token after it; the scanner's errors that are met on the way
to this token are reported, but no statement that is complete notices them. -/
namespace Scriptlet.Parse

open Grammar

variable {α : Type} {n depth room : Nat} {inLoop : Bool} {s r s' : State} {u : Token}
  {ts us errors : List Token} {st : Stmt Unit} {program : List (Stmt Unit)}

/-- How an error of the scanner is reported: never as an echo. -/
def lexicalReport (t : Token) : Diagnostic := ⟨t, .lexical t.lexeme, false⟩

theorem pullFrom_errors (herrors : ∀ t ∈ errors, t.kind = .error) (hu : u.kind ≠ .error)
    (us : List Token) (s : State) : ∃ panicking,
    s.pullFrom (errors ++ u :: us) =
      some ⟨u, us, panicking, s.reports ++ errors.map lexicalReport⟩ := by
  induction errors generalizing s with
  | nil =>
    rw [List.nil_append, State.pullFrom, if_neg hu]
    exact ⟨s.panicking, by simp⟩
  | cons t errors ih =>
    obtain ⟨ht, herrors⟩ := List.forall_mem_cons.1 herrors
    rw [List.cons_append, State.pullFrom, if_pos ht]
    obtain ⟨panicking, hpull⟩ := ih herrors (s.calm.report t (.lexical t.lexeme))
    refine ⟨panicking, ?_⟩
    rw [hpull]
    simp [State.report, State.calm, lexicalReport]

/-- A step without a report is a step to the very next token. -/
theorem pull_clean (h : s.pull = some r) (hr : r.reports = []) :
    ∃ t ts, s.rest = t :: ts ∧ t.kind ≠ .error ∧ r = { s with current := t, rest := ts } := by
  unfold State.pull at h
  cases hrest : s.rest with
  | nil =>
    rw [hrest] at h
    cases h
  | cons t ts =>
    rw [hrest, State.pullFrom] at h
    split at h
    · have hreports := State.reports_pullFrom h
      simp [hr, State.report] at hreports
    next ht => exact ⟨t, ts, rfl, ht, (Option.some.inj h).symm⟩

/-- The second state is the first with these errors of the scanner besides: they are still ahead of
it, right before the given tokens, or they are reported and passed. -/
inductive Interrupted (errors us : List Token) : State → State → Prop where
  | ahead {s : State} {ts : List Token} (h : s.rest = ts ++ us) :
    Interrupted errors us s { s with rest := ts ++ (errors ++ us) }
  | behind {s : State} (panicking : Bool) :
    Interrupted errors us s
      { s with panicking, reports := s.reports ++ errors.map lexicalReport }

namespace Interrupted

theorem current (h : Interrupted errors us s s') : s'.current = s.current := by
  cases h <;> rfl

theorem atEnd (h : Interrupted errors us s s') : s'.atEnd = s.atEnd := by
  unfold State.atEnd
  rw [h.current]

theorem calm (h : Interrupted errors us s s') : Interrupted errors us s.calm s'.calm := by
  cases h with
  | ahead h => exact .ahead (s := s.calm) h
  | behind => exact .behind (s := s.calm) false

/-- The step to the next token is a step to the same one, if nothing is reported on the way. -/
theorem pull (herrors : ∀ t ∈ errors, t.kind = .error) (hu : u.kind ≠ .error)
    (h : Interrupted errors (u :: us) s s') (hpull : s.pull = some r) (hclean : r.reports = []) :
    ∃ r', s'.pull = some r' ∧ Interrupted errors (u :: us) r r' := by
  obtain ⟨t, vs, hrest, ht, rfl⟩ := pull_clean hpull hclean
  cases h with
  | @ahead ts h =>
    rw [hrest] at h
    cases ts with
    | nil =>
      obtain ⟨rfl, rfl⟩ := List.cons.inj h
      obtain ⟨panicking, hpull⟩ := pullFrom_errors herrors hu vs
        { s with rest := errors ++ t :: vs }
      exact ⟨_, hpull, .behind panicking⟩
    | cons v ts =>
      obtain ⟨rfl, rfl⟩ := List.cons.inj h
      refine ⟨{ s with current := t, rest := ts ++ (errors ++ u :: us) }, ?_, .ahead rfl⟩
      rw [State.pull, List.cons_append, State.pullFrom, if_neg ht]
  | behind panicking =>
    refine ⟨_, ?_, .behind panicking⟩
    rw [State.pull, hrest, State.pullFrom, if_neg ht]

end Interrupted

/-- Where nothing is reported, the errors make no difference to the parser but for their own
reports. -/
def Passes (errors us : List Token) (p : Parser α) : Prop :=
  ∀ ⦃s s' r : State⦄ ⦃a : α⦄, Interrupted errors us s s' → p s = .ok a r → r.reports = [] →
    ∃ r', p s' = .ok a r' ∧ Interrupted errors us r r'

namespace Passes

theorem pure (a : α) : Passes errors us (pure a) := by
  intro s s' r b h hok _
  obtain ⟨rfl, rfl⟩ := pure_eq_ok.1 hok
  exact ⟨s', rfl, h⟩

theorem bind {β : Type} {p : Parser α} {f : α → Parser β} (hp : Passes errors us p)
    (hf : ∀ a, Passes errors us (f a)) (hreporting : ∀ a, Reporting (f a)) :
    Passes errors us (p >>= f) := by
  intro s s' r b h hok hclean
  obtain ⟨a, v, ha, hb⟩ := bind_eq_ok.1 hok
  -- Reports are never taken back, so there is none in between either.
  have hreports := hreporting a v
  rw [hb, extends_ok, hclean, List.prefix_nil] at hreports
  obtain ⟨v', ha', hv⟩ := hp h ha hreports
  obtain ⟨r', hb', hr⟩ := hf a hv hb hclean
  exact ⟨r', bind_eq_ok.2 ⟨a, v', ha', hb'⟩, hr⟩

theorem advance (herrors : ∀ t ∈ errors, t.kind = .error) (hu : u.kind ≠ .error) :
    Passes errors (u :: us) advance := by
  intro s s' r t h hok hclean
  unfold Parse.advance at hok ⊢
  rw [h.atEnd, h.current]
  cases hend : s.atEnd with
  | true =>
    simp only [hend, if_true, Result.ok.injEq] at hok
    obtain ⟨rfl, rfl⟩ := hok
    exact ⟨s', rfl, h⟩
  | false =>
    simp only [hend, Bool.false_eq_true, if_false] at hok ⊢
    cases hpull : s.pull with
    | none => simp [hpull] at hok
    | some v =>
      simp only [hpull, Result.ok.injEq] at hok
      obtain ⟨rfl, rfl⟩ := hok
      obtain ⟨r', hpull', hr⟩ := h.pull herrors hu hpull hclean
      rw [hpull']
      exact ⟨r', rfl, hr⟩

theorem numberLiteral (herrors : ∀ t ∈ errors, t.kind = .error) (hu : u.kind ≠ .error) :
    Passes errors (u :: us) numberLiteral := by
  refine (advance herrors hu).bind (fun t => ?_) fun t => ?_
  · cases readNumber? t.lexeme with
    | none =>
      intro s s' r e _ hok _
      cases hok
    | some x => exact .pure _
  · cases readNumber? t.lexeme <;> exact fun _ => List.prefix_rfl

theorem recovering {inBlock : Bool} {p : Parser α} (hp : Passes errors us p)
    (hreporting : Reporting p) : Passes errors us (recovering inBlock p) := by
  intro s s' r o h hok hclean
  obtain ⟨a, rfl, ha⟩ := recovering_clean hreporting hok hclean
  obtain ⟨r', ha', hr⟩ := hp h.calm ha hclean
  refine ⟨r', ?_, hr⟩
  rw [Parse.recovering, ha']

end Passes

theorem Elementary.passes {p : Parser α} (hp : Elementary p)
    (herrors : ∀ t ∈ errors, t.kind = .error) (hu : u.kind ≠ .error) :
    Passes errors (u :: us) p := by
  induction hp with
  | pure a => exact .pure a
  | halt | fail =>
    intro s s' r a _ hok _
    cases hok
  | peek | check =>
    intro s s' r k h hok _
    obtain ⟨rfl, rfl⟩ := Result.ok.inj hok
    refine ⟨s', ?_, h⟩
    rw [← h.current]
    rfl
  | advance => exact .advance herrors hu
  | bind _ hf ihp ihf => exact ihp.bind ihf fun a => (hf a).reporting
  | @number f hnumber hf ih =>
    intro s s' r e h hok hclean
    change ∃ r', f s'.current.kind s' = _ ∧ _
    rw [h.current]
    by_cases hk : s.current.kind = .number
    · rw [peek_bind_eq_ok, hk, hnumber] at hok
      rw [hk, hnumber]
      exact Passes.numberLiteral herrors hu h hok hclean
    · exact ih _ hk h hok hclean
  | report t cause =>
    intro s s' r _ _ hok hclean
    exact absurd hclean (report_unclean hok)
  | reportHere cause =>
    intro s s' r _ _ hok hclean
    exact absurd hclean (reportHere_unclean hok)
  | recovering hp ih => exact ih.recovering hp.reporting

/-- A declaration before any token but an error and an `else`, whatever comes then. -/
theorem declaration_complete (hst : (Clause.declaration false 0 st).SpelledBy ts)
    (hroom : st.rules ≤ room) (hu : u.kind ≠ .error) (helse : u.kind ≠ .kwElse) (us : List Token)
    (hn : rulesPerToken * ts.length + 2 ≤ n) :
    declaration n (.top room) (reading (ts ++ u :: us)) = .ok (some st) (reading (u :: us)) := by
  have hclean := clause_complete hst n (.top room) u [] rfl rfl hroom hn (by simp [hu]) helse
  have hmore : (reading (ts ++ [u])).followedBy us = reading (ts ++ u :: us) := by
    cases ts with
    | nil => rfl
    | cons t ts => simp [reading, State.followedBy]
  obtain heq | ⟨⟨r, hr⟩, -⟩ :=
    ((elementaryStmt n).declaration (.top room)).is_local us (reading (ts ++ [u]))
  · rw [hmore, hclean] at heq
    exact heq
  · cases hclean.symm.trans hr

/-- The last declaration, with errors of the scanner before the token after it. -/
theorem declaration_interrupted (hst : (Clause.declaration false 0 st).SpelledBy ts)
    (hroom : st.rules ≤ room) (herrors : ∀ t ∈ errors, t.kind = .error) (hu : u.kind ≠ .error)
    (helse : u.kind ≠ .kwElse) (us : List Token) (hn : rulesPerToken * ts.length + 2 ≤ n) :
    ∃ r, declaration n (.top room) (reading (ts ++ (errors ++ u :: us))) = .ok (some st) r ∧
      r.stream = u :: us ∧ r.reports = errors.map lexicalReport := by
  have hclean := declaration_complete hst hroom hu helse us hn
  obtain ⟨t, ts, rfl, -⟩ := hst.starts
  have hinterrupted : Interrupted errors (u :: us) (reading (t :: ts ++ u :: us))
      (reading (t :: ts ++ (errors ++ u :: us))) := .ahead rfl
  obtain ⟨r, hr, hend⟩ :=
    ((elementaryStmt n).declaration (.top room)).passes herrors hu hinterrupted hclean rfl
  refine ⟨r, hr, ?_⟩
  cases hend with
  | @ahead vs h =>
    have hlength := congrArg List.length h
    simp [reading] at hlength
    omega
  | behind panicking => exact ⟨rfl, by simp [reading]⟩

/-- After the declarations of a program the parser stands before what comes next, and has reported
nothing but the errors on the way there. -/
theorem between_interrupted {tokens : List Token} {done : List (Stmt Unit)}
    (hprogram : ProgramSpelledBy program ts)
    (hroom : Stmt.rulesAll program ≤ operandRules + room) (hts : ts ≠ [])
    (herrors : ∀ t ∈ errors, t.kind = .error) (hu : u.kind ≠ .error) (helse : u.kind ≠ .kwElse)
    (h : Between room tokens done (reading (ts ++ (errors ++ u :: us)))) :
    ∃ r, Between room tokens (done ++ program) r ∧ r.stream = u :: us ∧
      r.reports = errors.map lexicalReport := by
  induction program generalizing ts done with
  | nil =>
    cases hprogram
    exact absurd rfl hts
  | cons st program ih =>
    cases hprogram with
    | @cons _ _ _ _ ts vs hst hss =>
      have hend : (reading (ts ++ vs ++ (errors ++ u :: us))).atEnd = false := by
        obtain ⟨t, ts, rfl, ht⟩ := hst.starts
        have : ∀ k ∈ .kwVar :: .kwFunction :: Clause.openers, k ≠ .eof := by decide
        simp [reading, State.atEnd, this _ ht]
      obtain ⟨hroomFirst, hroomOthers⟩ := Nat.max_le.1 hroom
      rw [List.append_assoc] at h hend
      obtain rfl | ⟨v, vs', rfl, hv⟩ := hss.starts
      · obtain rfl : program = [] := program_unique hss .nil
        obtain ⟨r, hr, hstream, hreports⟩ :=
          declaration_interrupted hst hroomFirst herrors hu helse us (Nat.le_refl _)
        exact ⟨r, h.next hend hr, hstream, hreports⟩
      · have helse' : ∀ k ∈ .kwVar :: .kwFunction :: Clause.openers, k ≠ .kwElse := by decide
        have hfirst := declaration_complete hst hroomFirst (hss.proper v List.mem_cons_self)
          (helse' _ hv) (vs' ++ (errors ++ u :: us)) (Nat.le_refl _)
        obtain ⟨r, hr, hspec⟩ := ih hss hroomOthers (List.cons_ne_nil _ _) (h.next hend hfirst)
        rw [List.append_assoc] at hr
        exact ⟨r, hr, hspec⟩

/-- Errors of the scanner at the front are reported, and then it is as if there had been none. -/
theorem parse_errors (herrors : ∀ t ∈ errors, t.kind = .error) (hu : u.kind ≠ .error)
    (us : List Token) : parse room (errors ++ u :: us) =
      (parse room (u :: us)).map (Parsed.after [] (errors.map lexicalReport)) := by
  obtain ⟨panicking, hpull⟩ :=
    pullFrom_errors herrors hu us ⟨default, errors ++ u :: us, false, []⟩
  have hstart : State.start? (errors ++ u :: us) =
      some ⟨u, us, panicking, errors.map lexicalReport⟩ := hpull
  exact (Between.start hstart).resume

/-- The same after a program. -/
theorem parse_interrupted (hprogram : ProgramSpelledBy program ts)
    (hroom : Stmt.rulesAll program ≤ operandRules + room)
    (herrors : ∀ t ∈ errors, t.kind = .error) (hu : u.kind ≠ .error) (helse : u.kind ≠ .kwElse)
    (us : List Token) : parse room (ts ++ (errors ++ u :: us)) =
      (parse room (u :: us)).map (Parsed.after program (errors.map lexicalReport)) := by
  cases ts with
  | nil =>
    obtain rfl : program = [] := program_unique hprogram .nil
    exact parse_errors herrors hu us
  | cons t ts =>
    have ht : t.kind ≠ .error := hprogram.proper t List.mem_cons_self
    have hstart : State.start? (t :: ts ++ (errors ++ u :: us)) =
        some (reading (t :: ts ++ (errors ++ u :: us))) := by
      rw [State.start?, State.pull, List.cons_append, State.pullFrom, if_neg ht]
      rfl
    obtain ⟨r, hr, hstream, hreports⟩ :=
      between_interrupted hprogram hroom (List.cons_ne_nil t ts) herrors hu helse (.start hstart)
    rw [hr.resume, hstream, hreports, List.nil_append]

end Parse

open Parse Grammar

/-- A program that is parsed without a report is parsed to the same statements whatever follows it,
unless this is an `else`; what follows is parsed as it is without the program, with the same
reports. -/
theorem parse_continued {room : Nat} {ts us : List Token} {eof eof' : Token}
    {program : List (Stmt Unit)}
    (hts : ∀ t ∈ ts, t.kind ≠ .eof) (hparse : parse room (ts ++ [eof]) = .ok ⟨program, []⟩)
    (heof : eof'.kind = .eof)
    (helse : ∀ u, (us ++ [eof']).find? (fun t => t.kind ≠ .error) = some u → u.kind ≠ .kwElse) :
    parse room (ts ++ (us ++ [eof'])) =
      (parse room (us ++ [eof'])).map
        fun parsed => ⟨program ++ parsed.statements, parsed.reports⟩ := by
  have hprogram : ProgramSpelledBy program ts := parse_spelledBy hts hparse
  have hsome : ((us ++ [eof']).find? (fun t => t.kind ≠ .error)).isSome = true := by
    simp [heof]
  obtain ⟨u, hu⟩ := Option.isSome_iff_exists.1 hsome
  have hkind := helse u hu
  obtain ⟨hproper, errors, vs, hsplit, hfront⟩ := List.find?_eq_some_iff_append.1 hu
  have herrors : ∀ t ∈ errors, t.kind = .error := fun t ht => by simpa using hfront t ht
  have hproper : u.kind ≠ .error := of_decide_eq_true hproper
  rw [hsplit, parse_interrupted hprogram (rules_le hparse) herrors hproper hkind vs,
    parse_errors herrors hproper vs]
  cases parse room (u :: vs) with
  | error fault => rfl
  | ok parsed => simp [Except.map, Parsed.after]

/-- The `if` at the end is complete, though an error of the scanner and a syntax error follow. -/
theorem parse_continued_if :
    let word (kind : Kind) : Token := ⟨kind, kind.name, .start⟩
    let name (s : String) : Token := ⟨.identifier, s, .start⟩
    let ts := [word .kwIf, word .leftParen, name "a", word .rightParen, name "x", word .semicolon]
    let us := [word .error, word .kwPrint, word .semicolon]
    let program : List (Stmt Unit) :=
      [.ifThen (.reference (name "a") ()) (.expression (.reference (name "x") ()))]
    parse 0 (ts ++ [word .eof]) = .ok ⟨program, []⟩ ∧
      parse 0 (ts ++ (us ++ [word .eof])) = (parse 0 (us ++ [word .eof])).map
        fun parsed => ⟨program ++ parsed.statements, parsed.reports⟩ := by
  intro word name ts us program
  have hts : ∀ t ∈ ts, t.kind ≠ .eof := by decide
  have hparse : parse 0 (ts ++ [word .eof]) = .ok ⟨program, []⟩ := by cbv
  have helse : ∀ u, (us ++ [word .eof]).find? (fun t => t.kind ≠ .error) = some u →
      u.kind ≠ .kwElse := by
    intro u hu
    obtain rfl : word .kwPrint = u := Option.some.inj hu
    decide
  exact ⟨hparse, parse_continued hts hparse rfl helse⟩

end Scriptlet

import Scriptlet.Proofs.Recovery.Around
import Scriptlet.Proofs.Recovery.Rising

/-! Where there is no switch, each brace opens a block. So a rule that is read to its end has passed
balanced tokens, and so has one that fails, unless the program ends in a block: then nothing is left
to go wrong. -/
namespace Scriptlet

variable {d e : Nat} {ts us vs : List Token}

def Unswitched (ts : List Token) : Prop := ∀ t ∈ ts, t.kind ≠ .kwSwitch

theorem Leads.unswitched (h : Leads d e ts us) (hts : Unswitched ts) : Unswitched us :=
  fun t ht => hts t (h.suffix.subset ht)

/-- With so many braces open, one comes through tokens after which none of them is, and past the
brace after these, which closes one that was open before. Error tokens behind it are skipped. -/
def Closes (d : Nat) (ts us : List Token) : Prop :=
  ∃ inner right errors, ts = inner ++ right :: (errors ++ us) ∧ depthAfter d inner = some 0 ∧
    right.kind = .rightBrace ∧ ∀ t ∈ errors, t.kind = .error

theorem Closes.after (h : Closes e us vs) (hleads : Leads d e ts us) : Closes d ts vs := by
  obtain ⟨inner, right, errors, rfl, hinner, hright, herrors⟩ := h
  obtain ⟨xs, rfl, hxs⟩ := hleads
  refine ⟨xs ++ inner, right, errors, by simp, ?_, hright, herrors⟩
  rw [depthAfter_append, hxs, Option.bind_some, hinner]

theorem Closes.leads (h : Closes 0 ts us) : Leads 1 0 ts us := by
  obtain ⟨inner, right, errors, rfl, hinner, hright, herrors⟩ := h
  have hopen : Leads 1 1 _ (right :: (errors ++ us)) :=
    ⟨inner, rfl, depthAfter_add hinner 1⟩
  have hnest : right.kind.nest 1 = some 0 := by rw [hright]; rfl
  exact hopen.trans ((Leads.cons hnest _).trans (.errors herrors 0 us))

namespace Parse

variable {α β : Type} {n : Nat} {s r : State}

namespace State

theorem pull_closes (hs : s.current.kind = .rightBrace) (h : s.pull = some r) :
    Closes 0 s.stream r.stream := by
  obtain ⟨errors, hrest, herrors⟩ := pullFrom_skips h
  exact ⟨[], s.current, errors, by rw [← hrest]; rfl, rfl, hs, herrors⟩

theorem depth_of_landing {inBlock : Bool} {k : Kind} (h : landing inBlock k d = .here) :
    k = .eof ∨ d = 0 := by
  unfold landing at h
  split at h
  · exact .inl rfl
  · cases h
  · exact .inr rfl
  · cases h
  · cases h
  · cases h
  · exact .inr rfl
  · cases h

/-- Recovery closes the braces that it has opened, but at the end of the program. At top level it
may pass a brace that closes none. -/
theorem recover_settles {inBlock : Bool} {depth : Nat} (h : s.recover inBlock depth = some r) :
    Leads depth 0 s.stream r.stream ∨ r.atEnd = true ∨
      inBlock = false ∧ Closes depth s.stream r.stream := by
  fun_induction recover s inBlock depth with
  | case1 s depth hlanding =>
    obtain rfl := Option.some.inj h
    obtain heof | rfl := depth_of_landing hlanding
    · exact .inr (.inl (by simp [atEnd, heof]))
    · exact .inl (.refl 0 _)
  | case2 s depth hlanding =>
    obtain ⟨hright, rfl, hblock, -⟩ | ⟨e, he, ⟨-, rfl⟩ | honward⟩ :=
      nest_of_landing hlanding (by simp)
    · exact .inr (.inr ⟨hblock, pull_closes hright h⟩)
    · exact .inl (pull_leads he h)
    · cases honward
  | case3 s depth depth' hlanding hnone => cases h
  | case4 s depth depth' hlanding u hu ih =>
    obtain ⟨-, -, -, hpast⟩ | ⟨e, he, ⟨hpast, -⟩ | honward⟩ := nest_of_landing hlanding (by simp)
    · cases hpast
    · cases hpast
    · obtain rfl := Landing.onward.inj honward
      have hleads := pull_leads he hu
      obtain hlater | hend | ⟨hblock, hcloses⟩ := ih h
      · exact .inl (hleads.trans hlater)
      · exact .inr (.inl hend)
      · exact .inr (.inr ⟨hblock, hcloses.after hleads⟩)

end State

/-- What was passed is balanced, or the program is at its end. -/
def Result.Balances (ts : List Token) : Result α → Prop
  | .ok _ r => Leads 0 0 ts r.stream
  | .bad r => Leads 0 0 ts r.stream ∨ r.atEnd = true
  | .halt _ _ => True

theorem Result.Balances.after {x : Result α} (h : x.Balances us) (hleads : Leads 0 0 ts us) :
    x.Balances ts := by
  cases x with
  | ok a r => exact hleads.trans h
  | bad r => exact h.imp_left hleads.trans
  | halt => trivial

theorem balances_bind {p : Parser α} {g : α → Parser β} (hts : Unswitched ts)
    (hp : (p s).Balances ts)
    (hg : ∀ a r, Unswitched r.stream → (g a r).Balances r.stream) :
    ((p >>= g) s).Balances ts := by
  change (Parser.bind p g s).Balances ts
  unfold Parser.bind
  cases hps : p s with
  | ok a r =>
    rw [hps] at hp
    exact (hg a r (Leads.unswitched hp hts)).after hp
  | bad r =>
    rw [hps] at hp
    exact hp
  | halt => trivial

theorem advance_balances (h : s.current.kind.nest 0 = some 0) : (advance s).Balances s.stream := by
  unfold advance
  cases s.atEnd with
  | true => exact .refl 0 _
  | false =>
    cases hpull : s.pull with
    | none => trivial
    | some r => exact State.pull_leads h hpull

def Balancing (p : Parser α) : Prop := ∀ s, Unswitched s.stream → (p s).Balances s.stream

namespace Balancing

theorem bind {p : Parser α} {g : α → Parser β} (hp : Balancing p) (hg : ∀ a, Balancing (g a)) :
    Balancing (p >>= g) := fun s hs => balances_bind hs (hp s hs) hg

theorem pure (a : α) : Balancing (Pure.pure a : Parser α) := fun _ _ => .refl 0 _

theorem halt (cause : Halt) : Balancing (halt cause : Parser α) := fun _ _ => trivial

theorem guardDepth (c : Context) : Balancing (guardDepth c) := by
  unfold Parse.guardDepth
  split
  · exact halt _
  · exact pure ()

theorem complainIf (bad : Bool) (t : Token) (cause : SyntaxError) :
    Balancing (complainIf bad (report t cause)) := by
  cases bad with
  | true => exact fun _ _ => .refl 0 _
  | false => exact pure ()

end Balancing

theorem Plain.balances {k : Option Kind} {p : Parser α} (hp : Plain k p)
    (hk : ∀ kind ∈ k, s.current.kind = kind) (hs : Unswitched s.stream) :
    (p s).Balances s.stream := by
  induction hp generalizing s with
  | halt => trivial
  | pure | reportHere => exact Leads.refl 0 _
  | fail => exact .inl (.refl 0 _)
  | bind _ _ ihp ihf => exact balances_bind hs (ihp hk hs) fun a r => ihf a nofun
  | peek _ ih => exact ih s.current.kind (s := s) (by simp) hs
  | anywhere _ ih => exact ih nofun hs
  | advance hkind =>
    have hcurrent := hk _ rfl
    exact advance_balances (Kind.nest_of_ne (hcurrent ▸ hkind.1) (hcurrent ▸ hkind.2.1) 0)
  | blaming hkind _ _ ih =>
    have hcurrent := hk _ rfl
    have hnest := Kind.nest_of_ne (hcurrent ▸ hkind.1) (hcurrent ▸ hkind.2.1) 0
    refine balances_bind hs (advance_balances hnest) fun t r hr =>
      balances_bind hr (ih nofun hr) fun a u hu => ?_
    exact (Balancing.complainIf _ _ _).bind (fun _ => .pure _) u hu

theorem Plain.balancing {p : Parser α} (hp : Plain none p) : Balancing p :=
  fun _ hs => hp.balances nofun hs

theorem Ended.balancing {p : Parser α} (hp : Ended none p) : Balancing p := hp.plain.balancing

theorem pass_balances {g : Token → Parser β} {k : Kind} (hk : s.current.kind = k) (hinner : Inner k)
    (hs : Unswitched s.stream) (hg : ∀ t, Balancing (g t)) :
    ((advance >>= g) s).Balances s.stream :=
  balances_bind hs ((Plain.advance hinner).balances (by simp [hk]) hs) hg

/-- What stands in braces is read through to its brace, or the program is at its end. -/
def Result.Shuts (ts : List Token) : Result α → Prop
  | .ok _ r => Closes 0 ts r.stream
  | .bad r => r.atEnd = true
  | .halt _ _ => True

def Shutting (p : Parser α) : Prop := ∀ s, Unswitched s.stream → (p s).Shuts s.stream

theorem Shutting.map {p : Parser α} (hp : Shutting p) (f : α → β) : Shutting (f <$> p) := by
  intro s hs
  have hshuts := hp s hs
  change (Parser.bind p (fun a => Parser.pure (f a)) s).Shuts s.stream
  unfold Parser.bind
  cases hps : p s with
  | ok a r | bad r =>
    rw [hps] at hshuts
    exact hshuts
  | halt => trivial

theorem braces_balance {g : Token → Parser β} (hk : s.current.kind = .leftBrace)
    (hs : Unswitched s.stream) (hg : ∀ t, Shutting (g t)) :
    ((advance >>= g) s).Balances s.stream := by
  have hend : s.atEnd = false := by simp [State.atEnd, hk]
  cases hpull : s.pull with
  | none =>
    have hadvance : advance s = .halt .outOfTokens s := by simp [advance, hend, hpull]
    rw [bind_of_halt hadvance]
    trivial
  | some r =>
    have hadvance : advance s = .ok s.current r := by simp [advance, hend, hpull]
    have hleads : Leads 0 1 s.stream r.stream := State.pull_leads (by rw [hk]; rfl) hpull
    have hshuts := hg s.current r (hleads.unswitched hs)
    rw [bind_of_ok hadvance]
    cases hr : g s.current r with
    | ok b u =>
      rw [hr] at hshuts
      exact hleads.trans (Closes.leads hshuts)
    | bad u =>
      rw [hr] at hshuts
      exact .inr hshuts
    | halt => trivial

theorem enclosed_balances {slot : Slot} (hslot : slot.kind = .leftBrace) {g : Token → Parser β}
    (hg : ∀ t, Shutting (g t)) : Balancing (expect slot >>= g) := by
  intro s hs
  by_cases hk : s.current.kind = slot.kind
  · rw [bind_eq_of_eq (expect_of_kind hk)]
    exact braces_balance (hk.trans hslot) hs hg
  · rw [bind_of_bad (expect_fails hk)]
    exact .inl (.refl 0 _)

/-- A declaration that is kept has passed balanced tokens. One that is given up has so too, or the
program is at its end, or, at top level, a brace was passed that closes none. -/
def Result.Settles (inBlock : Bool) (ts : List Token) : Result (Option α) → Prop
  | .ok d r => Leads 0 0 ts r.stream ∨
      d = none ∧ (r.atEnd = true ∨ inBlock = false ∧ Closes 0 ts r.stream)
  | .bad _ | .halt _ _ => True

theorem recovering_settles {inBlock : Bool} {p : Parser α} (hp : Balancing p)
    (hs : Unswitched s.stream) : (recovering inBlock p s).Settles inBlock s.stream := by
  have hbalances : (p s.calm).Balances s.stream := hp s.calm hs
  unfold recovering
  cases hps : p s.calm with
  | ok a r =>
    rw [hps] at hbalances
    exact .inl hbalances
  | halt => trivial
  | bad r =>
    rw [hps] at hbalances
    cases hr : r.recover inBlock 0 with
    | none =>
      simp only [hr]
      trivial
    | some u =>
      simp only [hr]
      obtain hleads | hend := hbalances
      · obtain hlater | hend | ⟨hblock, hcloses⟩ := State.recover_settles hr
        · exact .inl (hleads.trans hlater)
        · exact .inr ⟨rfl, .inl hend⟩
        · exact .inr ⟨rfl, .inr ⟨hblock, hcloses.after hleads⟩⟩
      · -- at the end there is nothing to skip
        have hhere : State.landing inBlock r.current.kind 0 = .here := by
          rw [eq_of_beq hend]
          rfl
        rw [State.recover, hhere] at hr
        obtain rfl := Option.some.inj hr
        exact .inr ⟨rfl, .inl hend⟩

/-- The grammar functions of statements with this much fuel. -/
structure BalancingStmt (n : Nat) : Prop where
  declaration (c : Context) {s : State} (hs : Unswitched s.stream) :
    (declaration n c s).Settles c.inBlock s.stream
  function (c : Context) : Balancing (function n c)
  statement (c : Context) : Balancing (statement n c)
  block (c : Context) : Shutting (block n c)
  items {c : Context} (h : c.inBlock = true) {s r : State} {ss : List (Stmt Unit)}
    (hs : Unswitched s.stream) (hss : items n c s = .ok ss r) :
    Leads 0 0 s.stream r.stream ∨ r.atEnd = true

theorem balancing_unrecovered (ih : BalancingStmt n) (c : Context) :
    Balancing (unrecovered n c) := by
  intro s hs
  rw [unrecovered, peek_bind]
  generalize hk : s.current.kind = k
  split
  · exact pass_balances hk (by decide) hs fun _ => ih.function c
  · exact pass_balances hk (by decide) hs fun _ => (ended_varDeclaration n).balancing
  · exact ih.statement c s hs

theorem balancing_function (ih : BalancingStmt n) (c : Context) :
    Balancing (function (n + 1) c) := by
  rw [function_succ]
  refine (Plain.expect (by decide)).balancing.bind fun name =>
    (Plain.expect (by decide)).balancing.bind fun _ =>
    (plain_parameterList n).balancing.bind fun params =>
    (Plain.expect (by decide)).balancing.bind fun _ => enclosed_balances rfl fun _ => ?_
  unfold guardDepth
  split
  · exact fun _ _ => trivial
  · exact (ih.block _).map (Stmt.function name params)

theorem balancing_ifStatement (ih : BalancingStmt n) (c : Context) :
    Balancing (ifStatement n c) := by
  refine (ended_parenthesized n (by decide) (by decide)).balancing.bind fun _ =>
    (ih.statement _).bind fun _ => (Plain.acceptance (by decide)).balancing.bind fun o => ?_
  cases o with
  | none => exact .pure _
  | some _ => exact (ih.statement _).bind fun _ => .pure _

theorem balancing_form (ih : BalancingStmt n) (c : Context) : Balancing (form n c) := by
  intro s hs
  rw [form, peek_bind]
  generalize hk : s.current.kind = k
  split
  · exact pass_balances hk (by decide) hs fun _ => (ended_printStatement n).balancing
  · exact braces_balance hk hs fun _ => (ih.block c).map _
  · exact pass_balances hk (by decide) hs fun _ => balancing_ifStatement ih c
  · exact absurd hk (hs _ (List.mem_cons_self ..))
  · exact pass_balances hk (by decide) hs fun _ =>
      (ended_parenthesized n (by decide) (by decide)).balancing.bind fun _ =>
      (ih.statement _).bind fun _ => .pure _
  · exact pass_balances hk (by decide) hs fun _ => (ended_forHead n).balancing.bind fun _ =>
      (ih.statement _).bind fun _ => .pure _
  · exact pass_balances hk (by decide) hs fun _ => (ih.statement _).bind fun _ =>
      (Plain.expect (by decide)).balancing.bind fun _ =>
      (ended_parenthesized n (by decide) (by decide)).balancing.bind fun _ =>
      (Plain.expect (by decide)).balancing.bind fun _ => .pure _
  · exact (ended_jumpStatement (k := .kwBreak) (by decide) c _).plain.balances (by simp [hk]) hs
  · exact (ended_jumpStatement (k := .kwContinue) (by decide) c _).plain.balances (by simp [hk]) hs
  · exact pass_balances hk (by decide) hs fun _ => (ended_returnStatement n _).balancing
  · exact (ended_expressionStatement n).balancing s hs

theorem balancing_items (ih : BalancingStmt n) {c : Context} (h : c.inBlock = true) {s r : State}
    {ss : List (Stmt Unit)} (hs : Unswitched s.stream) (hss : items (n + 1) c s = .ok ss r) :
    Leads 0 0 s.stream r.stream ∨ r.atEnd = true := by
  by_cases hstop : s.current.kind = .rightBrace ∨ s.current.kind = .eof
  · rw [items_of_end hstop] at hss
    obtain ⟨-, rfl⟩ := Result.ok.inj hss
    exact .inl (.refl 0 _)
  · obtain ⟨hbrace, heof⟩ := not_or.1 hstop
    rw [items_of_more hbrace heof] at hss
    obtain ⟨first, u, hfirst, hss⟩ := bind_eq_ok.1 hss
    obtain ⟨rest, v, hrest, hss⟩ := bind_eq_ok.1 hss
    obtain ⟨-, rfl⟩ := pure_eq_ok.1 hss
    have hsettles := ih.declaration c hs
    rw [hfirst, h] at hsettles
    obtain hleads | ⟨-, hend | ⟨hfalse, -⟩⟩ := hsettles
    · exact (ih.items h (hleads.unswitched hs) hrest).imp_left hleads.trans
    · -- nothing follows the end
      have heof : u.current.kind = .eof := eq_of_beq hend
      cases n with
      | zero => cases hrest
      | succ n =>
        rw [items_of_end (.inr heof)] at hrest
        obtain ⟨-, rfl⟩ := Result.ok.inj hrest
        exact .inr hend
    · cases hfalse

theorem shutting_block (ih : BalancingStmt n) (c : Context) : Shutting (block (n + 1) c) := by
  intro s hs
  rw [block]
  obtain ⟨ss, r, hss, hend⟩ | ⟨cause, r, hss⟩ := items_ends n c.block s
  · rw [bind_of_ok hss]
    obtain hright | heof := hend
    · have hleads : Leads 0 0 s.stream r.stream :=
        (ih.items (c := c.block) rfl hs hss).resolve_right (by simp [State.atEnd, hright])
      cases hpull : r.pull with
      | none =>
        have hexpect : expect .blockClose r = .halt .outOfTokens r := by
          rw [expect_of_kind hright]
          simp [advance, State.atEnd, hright, hpull]
        rw [bind_of_halt hexpect]
        trivial
      | some u =>
        rw [bind_of_ok (expect_passes hright hpull)]
        exact (State.pull_closes hright hpull).after hleads
    · rw [bind_of_bad (expect_fails (by rw [heof]; decide))]
      exact beq_iff_eq.2 heof
  · rw [bind_of_halt hss]
    trivial

theorem balancingStmt (n : Nat) : BalancingStmt n := by
  induction n with
  | zero =>
    exact ⟨fun _ _ _ => trivial, fun _ => .halt _, fun _ => .halt _, fun _ _ _ => trivial,
      fun _ _ _ _ _ hss => by cases hss⟩
  | succ n ih =>
    refine ⟨fun c s hs => ?_, balancing_function ih, fun c => ?_, shutting_block ih,
      balancing_items ih⟩
    · rw [declaration_succ]
      exact recovering_settles (balancing_unrecovered ih c) hs
    · rw [statement_succ]
      exact (Balancing.guardDepth _).bind fun _ => balancing_form ih _

end Parse
end Scriptlet

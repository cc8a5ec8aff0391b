import Scriptlet.Proofs.Diagnostics.Order
import Scriptlet.Proofs.Parsing.Completeness
import Scriptlet.Proofs.Parsing.Transport

/-! The order of what the user is told through recovery. After an error the parser has passed the
token that the user was told of, or it stands before that token, which starts a statement or closes
a block: either way the token is passed before another error can be told. -/
namespace Scriptlet.Parse

variable {α β : Type} {tokens : List Token} {n : Nat} {s r : State}

namespace State

/-- A declaration may begin here, though the user may have been told of the token it begins with. -/
def Opens (tokens : List Token) (s : State) : Prop :=
  s.Fresh tokens ∨ s.Orderly tokens ∧ s.current.kind ∈ starters

/-- Where recovery ends. -/
def Lands (tokens : List Token) (inBlock : Bool) (s : State) : Prop :=
  s.Fresh tokens ∨ s.Ready tokens ∧ (s.current.kind ∈ starters ∨ s.current.kind = .eof ∨
    s.current.kind = .rightBrace ∧ inBlock = true)

theorem Lands.ready {inBlock : Bool} (h : s.Lands tokens inBlock) : s.Ready tokens :=
  h.elim Fresh.ready And.left

theorem Lands.opens {inBlock : Bool} (h : s.Lands tokens inBlock) (heof : s.current.kind ≠ .eof)
    (hbrace : inBlock = true → s.current.kind ≠ .rightBrace) : s.Opens tokens := by
  obtain hfresh | ⟨hready, hstarter | hend | ⟨hright, hblock⟩⟩ := h
  · exact .inl hfresh
  · exact .inr ⟨hready.orderly, hstarter⟩
  · exact absurd hend heof
  · exact absurd hright (hbrace hblock)

theorem Opens.orderly (h : s.Opens tokens) : s.Orderly tokens := h.elim Fresh.orderly And.left

theorem kind_of_landing {inBlock : Bool} {k : Kind} {d : Nat} (h : landing inBlock k d = .here) :
    k ∈ starters ∨ k = .eof ∨ k = .rightBrace ∧ inBlock = true := by
  unfold landing at h
  split at h
  · exact .inr (.inl rfl)
  · cases h
  · split at h
    next hblock => exact .inr (.inr ⟨rfl, hblock⟩)
    next => cases h
  · cases h
  · cases h
  · cases h
  · split at h
    next hstarter => exact .inl hstarter
    next => cases h
  · cases h

theorem recover_lands {inBlock : Bool} {depth : Nat} (hs : s.Ready tokens)
    (h : s.recover inBlock depth = some r) : r.Lands tokens inBlock := by
  fun_induction recover s inBlock depth with
  | case1 s depth hlanding =>
    obtain rfl := Option.some.inj h
    exact .inr ⟨hs, kind_of_landing hlanding⟩
  | case2 s depth hlanding => exact .inl (hs.orderly.pull h)
  | case3 s depth depth' hlanding hnone => cases h
  | case4 s depth depth' hlanding u hu ih => exact ih (hs.orderly.pull hu).ready h

end State

/-- A step that keeps the order. If it succeeds, its state is of this sort. -/
def Result.Files (tokens : List Token) (post : State → Prop) : Result α → Prop
  | .ok _ r => post r
  | .bad r => r.Ready tokens
  | .halt _ r => r.Orderly tokens

def Filing (tokens : List Token) (pre post : State → Prop) (p : Parser α) : Prop :=
  ∀ s, pre s → (p s).Files tokens post

variable {pre mid post : State → Prop}

theorem files_bind {p : Parser α} {f : α → Parser β} (hp : (p s).Files tokens mid)
    (hf : ∀ a, Filing tokens mid post (f a)) : ((p >>= f) s).Files tokens post := by
  change (Parser.bind p f s).Files tokens post
  unfold Parser.bind
  cases hps : p s with
  | ok a r =>
    rw [hps] at hp
    exact hf a r hp
  | bad r | halt cause r =>
    rw [hps] at hp
    exact hp

theorem advance_files (hs : s.Orderly tokens) (hend : s.current.kind ≠ .eof) :
    (advance s).Files tokens (State.Fresh tokens) := by
  have hatEnd : s.atEnd = false := by simp [State.atEnd, hend]
  unfold advance
  rw [hatEnd]
  cases hpull : s.pull with
  | none => exact hs
  | some r => exact hs.pull hpull

theorem pass_files {g : Token → Parser β} {k : Kind} (hs : s.Orderly tokens)
    (hk : s.current.kind = k) (hend : k ≠ .eof)
    (hg : ∀ t, Filing tokens (State.Fresh tokens) post (g t)) :
    ((advance >>= g) s).Files tokens post :=
  files_bind (advance_files hs (hk ▸ hend)) hg

namespace Filing

theorem bind {p : Parser α} {f : α → Parser β} (hp : Filing tokens pre mid p)
    (hf : ∀ a, Filing tokens mid post (f a)) : Filing tokens pre post (p >>= f) :=
  fun s hs => files_bind (hp s hs) hf

theorem mono {pre' : State → Prop} {p : Parser α} (hp : Filing tokens pre post p)
    (h : ∀ s, pre' s → pre s) : Filing tokens pre' post p := fun s hs => hp s (h s hs)

theorem pure (a : α) : Filing tokens post post (Pure.pure a) := fun _ hs => hs

theorem guardDepth (c : Context) (h : ∀ s, post s → s.Orderly tokens) :
    Filing tokens post post (guardDepth c) := by
  unfold Parse.guardDepth
  split
  · exact h
  · exact pure ()

theorem expect (slot : Slot) :
    Filing tokens (State.Ready tokens) (State.Fresh tokens) (expect slot) := by
  intro s hs
  change ((if s.current.kind == slot.kind then advance else fail (.expected slot)) s).Files _ _
  split
  next hk => exact advance_files hs.orderly (eq_of_beq hk ▸ slot_kind_ne_eof slot)
  next => exact hs.report trivial

theorem accept {kinds : List Kind} (h : Kind.eof ∉ kinds) :
    Filing tokens (State.Fresh tokens) (State.Fresh tokens) (accept kinds) := by
  intro s hs
  unfold Parse.accept
  rw [peek_bind]
  split
  next hk => exact pass_files hs.orderly rfl (fun he => h (he ▸ hk)) fun t => .pure (some t)
  next => exact hs

theorem recovering {inBlock : Bool} {p : Parser α}
    (hp : Filing tokens (State.Opens tokens) (State.Fresh tokens) p) :
    Filing tokens (State.Opens tokens) (State.Lands tokens inBlock) (recovering inBlock p) := by
  intro s hs
  have hcalm : (p s.calm).Files tokens (State.Fresh tokens) := hp s.calm hs
  unfold Parse.recovering
  cases hps : p s.calm with
  | ok a r =>
    rw [hps] at hcalm
    exact .inl hcalm
  | halt cause r =>
    rw [hps] at hcalm
    exact hcalm
  | bad r =>
    rw [hps] at hcalm
    cases hr : r.recover inBlock 0 with
    | none =>
      simp only [hr]
      exact hcalm.orderly
    | some u =>
      simp only [hr]
      exact State.recover_lands hcalm hr

end Filing

theorem Plain.files {k : Option Kind} {p : Parser α} (hp : Plain k p)
    (hk : ∀ kind ∈ k, s.current.kind = kind) (hs : s.Ready tokens) :
    (p s).Files tokens (State.Ready tokens) := by
  have hsteady := hp.steady hk hs
  cases hps : p s with
  | ok a r =>
    rw [hps] at hsteady
    exact hsteady.1
  | bad r | halt cause r =>
    rw [hps] at hsteady
    exact hsteady

theorem Plain.filing {p : Parser α} (hp : Plain none p) :
    Filing tokens (State.Ready tokens) (State.Ready tokens) p := fun _ hs => hp.files nofun hs

/-- What ends by passing a token leaves a token that the user has not been told of. -/
theorem Ended.files {k : Option Kind} {p : Parser α} (hp : Ended k p)
    (hk : ∀ kind ∈ k, s.current.kind = kind) (hs : s.Ready tokens) :
    (p s).Files tokens (State.Fresh tokens) := by
  obtain ⟨β, q, slot, f, hq, -, rfl⟩ := hp
  exact files_bind (hq.files hk hs) fun b => (Filing.expect slot).bind fun _ => .pure (f b)

theorem Ended.filing {p : Parser α} (hp : Ended none p) :
    Filing tokens (State.Ready tokens) (State.Fresh tokens) p := fun _ hs => hp.files nofun hs

/-- After a token. -/
theorem Filing.fresh {p : Parser α} (hp : Filing tokens (State.Ready tokens) post p) :
    Filing tokens (State.Fresh tokens) post p := hp.mono fun _ hs => hs.ready

theorem Filing.slot (slot : Slot) :
    Filing tokens (State.Fresh tokens) (State.Fresh tokens) (Parse.expect slot) :=
  (Filing.expect slot).fresh

/-- A statement may begin here, though the user may have been told of the token it begins with. -/
def State.Begins (tokens : List Token) (s : State) : Prop :=
  s.Fresh tokens ∨ s.Orderly tokens ∧ s.current.kind ∈ starters ∧ s.current.kind ≠ .kwVar ∧
    s.current.kind ≠ .kwFunction

theorem State.Begins.orderly (h : s.Begins tokens) : s.Orderly tokens :=
  h.elim Fresh.orderly And.left

/-- The grammar functions of statements with this much fuel. -/
structure FilingStmt (tokens : List Token) (n : Nat) : Prop where
  declaration (c : Context) :
    Filing tokens (State.Opens tokens) (State.Lands tokens c.inBlock) (declaration n c)
  function (c : Context) :
    Filing tokens (State.Fresh tokens) (State.Fresh tokens) (function n c)
  statement (c : Context) :
    Filing tokens (State.Begins tokens) (State.Fresh tokens) (statement n c)
  block (c : Context) : Filing tokens (State.Fresh tokens) (State.Fresh tokens) (block n c)
  items {c : Context} (h : c.inBlock = true) :
    Filing tokens (State.Lands tokens true) (State.Ready tokens) (items n c)
  arms (c : Context) : Filing tokens (State.Fresh tokens) (State.Fresh tokens) (arms n c)

theorem FilingStmt.nested (ih : FilingStmt tokens n) (c : Context) :
    Filing tokens (State.Fresh tokens) (State.Fresh tokens) (Parse.statement n c) :=
  (ih.statement c).mono fun _ hs => .inl hs

theorem filing_unrecovered (ih : FilingStmt tokens n) (c : Context) :
    Filing tokens (State.Opens tokens) (State.Fresh tokens) (unrecovered n c) := by
  intro s hs
  rw [unrecovered, peek_bind]
  generalize hk : s.current.kind = k
  split
  · exact pass_files hs.orderly hk (by decide) fun _ => ih.function c
  · exact pass_files hs.orderly hk (by decide) fun _ => (ended_varDeclaration n).filing.fresh
  next hfunction hvar =>
    refine ih.statement c s (hs.imp_right fun hopens => ?_)
    obtain ⟨horderly, hstarter⟩ := hopens
    exact ⟨horderly, hstarter, by rwa [hk], by rwa [hk]⟩

theorem filing_function (ih : FilingStmt tokens n) (c : Context) :
    Filing tokens (State.Fresh tokens) (State.Fresh tokens) (function (n + 1) c) := by
  rw [function_succ]
  exact (Filing.slot _).bind fun name => (Filing.slot _).bind fun _ =>
    (plain_parameterList n).filing.fresh.bind fun params => (Filing.expect _).bind fun _ =>
    (Filing.slot _).bind fun _ => (Filing.guardDepth _ fun _ => State.Fresh.orderly).bind fun _ =>
    (ih.block _).bind fun body => .pure _

theorem filing_parenthesized (n : Nat) {left right : Slot} (hleft : Inner left.kind)
    (hright : Inner right.kind) :
    Filing tokens (State.Fresh tokens) (State.Fresh tokens) (parenthesized n room left right) :=
  (ended_parenthesized n hleft hright).filing.fresh

theorem filing_ifStatement (ih : FilingStmt tokens n) (c : Context) :
    Filing tokens (State.Fresh tokens) (State.Fresh tokens) (ifStatement n c) := by
  refine (filing_parenthesized n (by decide) (by decide)).bind fun _ =>
    (ih.nested _).bind fun _ => (Filing.accept (by decide)).bind fun o => ?_
  cases o with
  | none => exact .pure _
  | some _ => exact (ih.nested _).bind fun _ => .pure _

theorem filing_switchStatement (ih : FilingStmt tokens n) (c : Context) :
    Filing tokens (State.Fresh tokens) (State.Fresh tokens) (switchStatement n c) :=
  (filing_parenthesized n (by decide) (by decide)).bind fun _ => (Filing.slot _).bind fun _ =>
    (ih.arms c).bind fun _ => (Filing.slot _).bind fun _ => .pure _

theorem filing_doStatement (ih : FilingStmt tokens n) (c : Context) :
    Filing tokens (State.Fresh tokens) (State.Fresh tokens) (doStatement n c) :=
  (ih.nested _).bind fun _ => (Filing.slot _).bind fun _ =>
    (filing_parenthesized n (by decide) (by decide)).bind fun _ => (Filing.slot _).bind fun _ =>
    .pure _

/-- Only what begins with a starter may begin at a token that the user has been told of. -/
theorem fresh_of_begins (hs : s.Begins tokens)
    (hstarter : s.current.kind ∈ State.starters → s.current.kind = .kwVar ∨
      s.current.kind = .kwFunction) : s.Fresh tokens := by
  obtain hfresh | ⟨-, hmem, hvar, hfunction⟩ := hs
  · exact hfresh
  · exact absurd (hstarter hmem) (not_or.2 ⟨hvar, hfunction⟩)

theorem filing_form (ih : FilingStmt tokens n) (c : Context) :
    Filing tokens (State.Begins tokens) (State.Fresh tokens) (form n c) := by
  intro s hs
  rw [form, peek_bind]
  generalize hk : s.current.kind = k
  split
  · exact pass_files hs.orderly hk (by decide) fun _ => (ended_printStatement n).filing.fresh
  · exact pass_files hs.orderly hk (by decide) fun _ => (ih.block c).bind fun _ => .pure _
  · exact pass_files hs.orderly hk (by decide) fun _ => filing_ifStatement ih c
  · exact pass_files hs.orderly hk (by decide) fun _ => filing_switchStatement ih c
  · exact pass_files hs.orderly hk (by decide) fun _ =>
      (filing_parenthesized n (by decide) (by decide)).bind fun _ =>
      (ih.nested _).bind fun _ => .pure _
  · exact pass_files hs.orderly hk (by decide) fun _ => (ended_forHead n).filing.fresh.bind
      fun _ => (ih.nested _).bind fun _ => .pure _
  · exact pass_files hs.orderly hk (by decide) fun _ => filing_doStatement ih c
  · have hfresh := fresh_of_begins hs (by rw [hk]; decide)
    exact (ended_jumpStatement (k := .kwBreak) (by decide) c _).files (by simp [hk]) hfresh.ready
  · have hfresh := fresh_of_begins hs (by rw [hk]; decide)
    exact (ended_jumpStatement (k := .kwContinue) (by decide) c _).files (by simp [hk]) hfresh.ready
  · exact pass_files hs.orderly hk (by decide) fun _ => (ended_returnStatement n _).filing.fresh
  · refine (ended_expressionStatement n).filing s (fresh_of_begins hs ?_).ready
    rw [hk]
    simp only [State.starters, List.mem_cons, List.not_mem_nil, or_false]
    rintro (h | h | h | h | h | h | h | h | h)
    all_goals first | contradiction | exact .inl h | exact .inr h

theorem filing_items (ih : FilingStmt tokens n) {c : Context} (h : c.inBlock = true) :
    Filing tokens (State.Lands tokens true) (State.Ready tokens) (items (n + 1) c) := by
  intro s hs
  by_cases hstop : s.current.kind = .rightBrace ∨ s.current.kind = .eof
  · rw [items_of_end hstop]
    exact hs.ready
  · obtain ⟨hbrace, heof⟩ := not_or.1 hstop
    rw [items_of_more hbrace heof]
    have hdeclaration := ih.declaration c
    rw [h] at hdeclaration
    exact files_bind (hdeclaration s (hs.opens heof fun _ => hbrace)) fun _ =>
      (ih.items h).bind fun _ => .pure _

theorem filing_arms (ih : FilingStmt tokens n) (c : Context) :
    Filing tokens (State.Fresh tokens) (State.Fresh tokens) (arms (n + 1) c) := by
  intro s hs
  rw [arms, peek_bind]
  generalize hk : s.current.kind = k
  split
  · exact pass_files hs.orderly hk (by decide) fun _ => (plain_expr n _).filing.fresh.bind fun _ =>
      (Filing.expect _).bind fun _ => (ih.nested _).bind fun _ => (ih.arms _).bind fun _ => .pure _
  · exact pass_files hs.orderly hk (by decide) fun _ => (Filing.slot _).bind fun _ =>
      (ih.nested _).bind fun _ => .pure _
  · exact hs

theorem filingStmt (tokens : List Token) (n : Nat) : FilingStmt tokens n := by
  induction n with
  | zero =>
    exact ⟨fun _ _ => State.Opens.orderly, fun _ _ => State.Fresh.orderly,
      fun _ _ => State.Begins.orderly, fun _ _ => State.Fresh.orderly,
      fun _ _ hs => hs.ready.orderly, fun _ _ => State.Fresh.orderly⟩
  | succ n ih =>
    refine ⟨fun c => ?_, filing_function ih, fun c => ?_, fun c => ?_, filing_items ih,
      filing_arms ih⟩
    · rw [declaration_succ]
      exact .recovering (filing_unrecovered ih c)
    · rw [statement_succ]
      exact (Filing.guardDepth _ fun _ => State.Begins.orderly).bind fun _ => filing_form ih _
    · rw [block]
      exact ((ih.items rfl).mono fun _ => .inl).bind fun _ => (Filing.expect _).bind fun _ =>
        .pure _

/-- What was reported in the end is in order, whatever the program was. -/
theorem program_orderly (n : Nat) (hs : s.Lands tokens false) :
    (program n room s).2.state.Orderly tokens := by
  induction n generalizing s with
  | zero => exact hs.ready.orderly
  | succ n ih =>
    unfold program
    split
    · exact hs.ready.orderly
    next hend =>
      have heof : s.current.kind ≠ .eof := by simpa [State.atEnd] using hend
      have hfiles := (filingStmt tokens n).declaration (.top room) s (hs.opens heof (by simp))
      cases hd : declaration n (.top room) s with
      | ok d r =>
        rw [hd] at hfiles
        exact ih hfiles
      | bad r =>
        rw [hd] at hfiles
        exact hfiles.orderly
      | halt cause r =>
        rw [hd] at hfiles
        exact hfiles

theorem start_fresh (h : State.start? tokens = some s) : s.Fresh tokens :=
  State.pullFrom_fresh (List.nil_append tokens).symm .nil h

end Scriptlet.Parse

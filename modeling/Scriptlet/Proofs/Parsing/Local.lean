import Scriptlet.Proofs.Parsing.Progress
import Scriptlet.Proofs.Parsing.Transport

/-! Which tokens a parser looks at: those that it passes and the next one, and none after an end. So
more tokens make no difference to a parser for which there were enough. -/
namespace Scriptlet.Parse

variable {α β : Type} {s : State} {eof : Token} {ts us : List Token}

namespace State

/-- Only these tokens are left. -/
def Past (us : List Token) (s : State) : Prop := s.stream <:+ us

theorem past_invariant (us : List Token) : Invariant (Past us) where
  report _ _ hs := hs
  calm hs := hs
  pull hs _ hr := (pull_suffix hr).trans ((rest_suffix _).trans hs)

/-- The token is ahead of the current one, or is it, and these tokens are after it. -/
def Ahead (t : Token) (us : List Token) (s : State) : Prop := t :: us <:+ s.stream

/-- Only error tokens are skipped. -/
theorem pullFrom_ahead {u : Token} (hu : u.kind ≠ .error) (h : u :: us <:+ ts) (s : State) :
    ∃ r, s.pullFrom ts = some r ∧ r.Ahead u us := by
  induction ts generalizing s with
  | nil => simp at h
  | cons t ts ih =>
    unfold pullFrom
    by_cases herror : t.kind = .error
    · rw [if_pos herror]
      rcases List.suffix_cons_iff.1 h with heq | hsuffix
      · obtain ⟨rfl, -⟩ := List.cons.inj heq
        exact absurd herror hu
      · exact ih hsuffix _
    · rw [if_neg herror]
      exact ⟨_, rfl, h⟩

/-- No step goes beyond an end. -/
theorem ahead_invariant (heof : eof.kind = .eof) (us : List Token) :
    Invariant (Ahead eof us) where
  report _ _ hs := hs
  calm hs := hs
  pull hs hend hr := by
    rcases List.suffix_cons_iff.1 hs with heq | hsuffix
    · obtain ⟨hcurrent, -⟩ := List.cons.inj heq
      rw [atEnd, ← hcurrent, heof] at hend
      cases hend
    · obtain ⟨r, hr', hahead⟩ := pullFrom_ahead (by simp [heof]) hsuffix _
      obtain rfl := Option.some.inj (hr'.symm.trans hr)
      exact hahead

/-- There is more to come after the tokens of the state. -/
def followedBy (us : List Token) (s : State) : State := { s with rest := s.rest ++ us }

theorem pullFrom_followedBy (us : List Token) (s : State) (ts : List Token) :
    (∃ r, s.pullFrom ts = some r ∧ (s.followedBy us).pullFrom (ts ++ us) = some (r.followedBy us)) ∨
      s.pullFrom ts = none ∧ ∀ r, (s.followedBy us).pullFrom (ts ++ us) = some r → r.Past us := by
  induction ts generalizing s with
  | nil => exact .inr ⟨rfl, fun r hr => pullFrom_suffix hr⟩
  | cons t ts ih =>
    rw [List.cons_append, pullFrom, pullFrom]
    split
    · exact ih _
    · exact .inl ⟨_, rfl, rfl⟩

theorem pull_followedBy (us : List Token) (s : State) :
    (∃ r, s.pull = some r ∧ (s.followedBy us).pull = some (r.followedBy us)) ∨
      s.pull = none ∧ ∀ r, (s.followedBy us).pull = some r → r.Past us :=
  pullFrom_followedBy us s s.rest

theorem recover_followedBy (us : List Token) (s : State) (inBlock : Bool) (depth : Nat) :
    (∃ r, s.recover inBlock depth = some r ∧
      (s.followedBy us).recover inBlock depth = some (r.followedBy us)) ∨
    s.recover inBlock depth = none ∧
      ∀ r, (s.followedBy us).recover inBlock depth = some r → r.Past us := by
  have hkind {s : State} {depth : Nat} {l : Landing}
      (h : landing inBlock s.current.kind depth = l) :
      landing inBlock (s.followedBy us).current.kind depth = l := h
  fun_induction recover s inBlock depth with
  | case1 s depth hlanding =>
    rw [recover, hkind hlanding]
    exact .inl ⟨s, rfl, rfl⟩
  | case2 s depth hlanding =>
    rw [recover, hkind hlanding]
    exact pull_followedBy us s
  | case3 s depth depth' hlanding hnone =>
    obtain ⟨r, hr, -⟩ | ⟨-, hpast⟩ := pull_followedBy us s
    · cases hnone.symm.trans hr
    · refine .inr ⟨rfl, fun r hr => ?_⟩
      rw [recover, hkind hlanding] at hr
      dsimp only at hr
      split at hr
      next => cases hr
      next u hu => exact recover_keeps (past_invariant us).pull (hpast u hu) hr
  | case4 s depth depth' hlanding u hu ih =>
    obtain ⟨r, hr, hmore⟩ | ⟨hnone, -⟩ := pull_followedBy us s
    · obtain rfl := Option.some.inj (hr.symm.trans hu)
      rw [recover.eq_def (s.followedBy us), hkind hlanding]
      dsimp only
      split
      next hnone => cases hmore.symm.trans hnone
      next v hv =>
        obtain rfl := Option.some.inj (hmore.symm.trans hv)
        exact ih
    · cases hnone.symm.trans hu

end State

/-- Only these tokens are left, if the parse goes on. -/
def Result.Past (us : List Token) : Result α → Prop
  | .ok _ r | .bad r => r.Past us
  | .halt _ _ => True

/-- The tokens of the state are enough for the parser, or it takes all of them. -/
def Local (us : List Token) (p : Parser α) (s : State) : Prop :=
  p (s.followedBy us) = (p s).onState (State.followedBy us) ∨
    (∃ r, p s = .halt .outOfTokens r) ∧ (p (s.followedBy us)).Past us

namespace Local

theorem bind {p : Parser α} {f : α → Parser β} (hp : Local us p s)
    (hf : ∀ a r, p s = .ok a r → Local us (f a) r)
    (hkeeps : ∀ a r, r.Past us → (f a r).state.Past us) : Local us (p >>= f) s := by
  change Parser.bind p f (s.followedBy us) = (Parser.bind p f s).onState (State.followedBy us) ∨
    (∃ r, Parser.bind p f s = .halt .outOfTokens r) ∧ (Parser.bind p f (s.followedBy us)).Past us
  unfold Parser.bind
  rcases hp with heq | ⟨⟨r, hr⟩, hpast⟩
  · rw [heq]
    cases hps : p s with
    | ok a r => exact hf a r hps
    | bad r | halt cause r => exact .inl rfl
  · refine .inr ⟨⟨r, by rw [hr]⟩, ?_⟩
    cases hps : p (s.followedBy us) with
    | ok a u =>
      rw [hps] at hpast
      have hu := hkeeps a u hpast
      dsimp only
      cases hfu : f a u with
      | halt => trivial
      | ok b v | bad v =>
        rw [hfu] at hu
        exact hu
    | bad u =>
      rw [hps] at hpast
      exact hpast
    | halt => trivial

theorem advance (us : List Token) (s : State) : Local us advance s := by
  unfold Local Parse.advance
  have hend : (s.followedBy us).atEnd = s.atEnd := rfl
  rw [hend]
  cases s.atEnd with
  | true => exact .inl rfl
  | false =>
    obtain ⟨r, hr, hmore⟩ | ⟨hnone, hpast⟩ := State.pull_followedBy us s
    · rw [hr, hmore]
      exact .inl rfl
    · rw [hnone]
      refine .inr ⟨⟨s, rfl⟩, ?_⟩
      cases hmore : (s.followedBy us).pull with
      | none => trivial
      | some r => exact hpast r hmore

theorem numberLiteral (us : List Token) (s : State) : Local us numberLiteral s := by
  refine (advance us s).bind (fun t r _ => ?_) fun t r hr => ?_
  · cases readNumber? t.lexeme <;> exact .inl rfl
  · cases readNumber? t.lexeme <;> exact hr

theorem recovering {p : Parser α} (inBlock : Bool) (hp : Local us p s.calm) :
    Local us (recovering inBlock p) s := by
  have hcalm : (s.followedBy us).calm = s.calm.followedBy us := rfl
  unfold Local Parse.recovering
  rw [hcalm]
  obtain heq | ⟨⟨r, hr⟩, hpast⟩ := hp
  · rw [heq]
    cases p s.calm with
    | ok a r | halt cause r => exact .inl rfl
    | bad r =>
      simp only [Result.onState]
      obtain ⟨u, hu, hmore⟩ | ⟨hnone, hpast⟩ := State.recover_followedBy us r inBlock 0
      · rw [hu, hmore]
        exact .inl rfl
      · rw [hnone]
        refine .inr ⟨⟨r, rfl⟩, ?_⟩
        cases hmore : (r.followedBy us).recover inBlock 0 with
        | none => trivial
        | some u => exact hpast u hmore
  · refine .inr ⟨⟨r, by rw [hr]⟩, ?_⟩
    cases hps : p (s.calm.followedBy us) with
    | halt => trivial
    | ok a u =>
      rw [hps] at hpast
      exact hpast
    | bad u =>
      rw [hps] at hpast
      dsimp only
      cases hu : u.recover inBlock 0 with
      | none => trivial
      | some v => exact State.recover_keeps (State.past_invariant us).pull hpast hu

end Local

/-- More tokens make no difference to a parser, unless it needs them. -/
theorem Elementary.is_local {p : Parser α} (hp : Elementary p) (us : List Token) (s : State) :
    Local us p s := by
  have hkeeps {β γ : Type} {f : β → Parser γ} (hf : ∀ a, Elementary (f a)) (a : β) (r : State)
      (hr : r.Past us) : (f a r).state.Past us := (hf a).keeps (State.past_invariant us) hr
  induction hp generalizing s with
  | pure | halt | peek | check | report | reportHere | fail => exact .inl rfl
  | advance => exact .advance us s
  | bind _ hf ihp ihf => exact (ihp s).bind (fun a r _ => ihf a r) (hkeeps hf)
  | @number f hnumber _ ih =>
    change f s.current.kind (s.followedBy us) = (f s.current.kind s).onState (State.followedBy us) ∨
      (∃ r, f s.current.kind s = .halt .outOfTokens r) ∧
        (f s.current.kind (s.followedBy us)).Past us
    by_cases hk : s.current.kind = .number
    · rw [hk, hnumber]
      exact Local.numberLiteral us s
    · exact ih _ hk s
  | recovering _ ih => exact .recovering _ (ih s.calm)

theorem program_followedBy (us : List Token) (n : Nat) (s : State) :
    (∃ r, (program n room s).2 = .halted .outOfTokens r) ∨
      program n room (s.followedBy us) =
        ((program n room s).1, (program n room s).2.onState (State.followedBy us)) := by
  induction n generalizing s with
  | zero => exact .inr rfl
  | succ n ih =>
    have hend : (s.followedBy us).atEnd = s.atEnd := rfl
    rw [program, program, hend]
    cases s.atEnd with
    | true => exact .inr rfl
    | false =>
      obtain heq | ⟨⟨r, hr⟩, -⟩ := ((elementaryStmt n).declaration (.top room)).is_local us s
      · rw [heq]
        cases declaration n (.top room) s with
        | bad r | halt cause r => exact .inr rfl
        | ok d r =>
          obtain ⟨u, hu⟩ | hrest := ih r
          · exact .inl ⟨u, hu⟩
          · exact .inr (by simp only [Result.onState, hrest, Bool.false_eq_true, if_false])
      · rw [hr]
        exact .inl ⟨r, rfl⟩

end Scriptlet.Parse

import Scriptlet.Proofs.Parsing.Expressions
import Scriptlet.Proofs.Parsing.Plain
import Scriptlet.Proofs.Parsing.Progress

/-! In what order the user is told of errors. While the parser reads, the tokens that the user has
been told of are among those passed and the current one, each once and in the order of the text; and
unless the parser panics, the current one is not among them yet. -/
namespace Scriptlet

/-- Whether the scanner has found the error. -/
def SyntaxError.isLexical : SyntaxError → Bool
  | .lexical _ => true
  | _ => false

def Token.lexicalError (t : Token) : Diagnostic := ⟨t, .lexical t.lexeme, false⟩

open Diagnostic

/-- When these tokens have been passed, the user has been told of some of them, of each once and in
their order, and of all error tokens. -/
structure InOrder (passed : List Token) (reports : List Diagnostic) : Prop where
  sublist : ((told reports).map (·.token)).Sublist passed
  lexical : (told reports).filter (·.cause.isLexical) =
    (passed.filter (·.kind == .error)).map Token.lexicalError
  shallow : ∀ d ∈ told reports, d.cause ≠ .tooDeep

variable {passed more : List Token} {reports : List Diagnostic} {t : Token} {cause : SyntaxError}

namespace InOrder

theorem nil : InOrder [] [] := ⟨List.Sublist.refl _, rfl, by simp [told]⟩

theorem append (h : InOrder passed reports) (hmore : ∀ t ∈ more, t.kind ≠ .error) :
    InOrder (passed ++ more) reports where
  sublist := h.sublist.trans (List.sublist_append_left passed more)
  lexical := by
    have hnone : more.filter (·.kind == .error) = [] := by simpa using hmore
    rw [h.lexical, List.filter_append, hnone, List.append_nil]
  shallow := h.shallow

theorem echo (h : InOrder passed reports) (t : Token) (cause : SyntaxError) :
    InOrder passed (reports ++ [⟨t, cause, true⟩]) := by
  have htold : told (reports ++ [⟨t, cause, true⟩]) = told reports := by simp [told]
  exact ⟨htold ▸ h.sublist, htold ▸ h.lexical, htold ▸ h.shallow⟩

/-- A token that comes after all that the user has been told of. -/
theorem blame (h : InOrder passed reports) (hcause : Parse.Grammatical cause)
    (hsublist : ((told reports).map (·.token) ++ [t]).Sublist passed) :
    InOrder passed (reports ++ [⟨t, cause, false⟩]) := by
  have htold : told (reports ++ [⟨t, cause, false⟩]) = told reports ++ [⟨t, cause, false⟩] := by
    simp [told]
  refine ⟨by simpa [htold] using hsublist, ?_, fun d hd => ?_⟩
  · have hgrammar : cause.isLexical = false := by cases cause <;> first | rfl | cases hcause
    rw [htold, List.filter_append, h.lexical]
    simp [hgrammar]
  · rw [htold] at hd
    rcases List.mem_append.1 hd with hd | hd
    · exact h.shallow d hd
    · obtain rfl := List.mem_singleton.1 hd
      rintro rfl
      cases hcause

theorem report (h : InOrder passed reports) (ht : t.kind ≠ .error)
    (hcause : Parse.Grammatical cause) :
    InOrder (passed ++ [t]) (reports ++ [⟨t, cause, false⟩]) :=
  (h.append (by simpa using ht)).blame hcause (h.sublist.append (List.Sublist.refl [t]))

theorem error (h : InOrder passed reports) (ht : t.kind = .error) :
    InOrder (passed ++ [t]) (reports ++ [t.lexicalError]) := by
  have htold : told (reports ++ [t.lexicalError]) = told reports ++ [t.lexicalError] := by
    simp [told, Token.lexicalError]
  refine ⟨?_, ?_, fun d hd => ?_⟩
  · rw [htold, List.map_append]
    exact h.sublist.append (List.Sublist.refl [t])
  · rw [htold, List.filter_append, List.filter_append, h.lexical]
    simp [ht, Token.lexicalError, SyntaxError.isLexical]
  · rw [htold] at hd
    rcases List.mem_append.1 hd with hd | hd
    · exact h.shallow d hd
    · obtain rfl := List.mem_singleton.1 hd
      simp [Token.lexicalError]

end InOrder

namespace Parse

variable {α β : Type} {tokens : List Token} {n : Nat} {s r u : State}

namespace State

/-- The user has not been told of the current token. -/
def Fresh (tokens : List Token) (s : State) : Prop :=
  ∃ passed, tokens = passed ++ s.stream ∧ s.current.kind ≠ .error ∧ InOrder passed s.reports

/-- The user may have been told of the current token, but of none after it. -/
def Orderly (tokens : List Token) (s : State) : Prop :=
  ∃ passed, tokens = passed ++ s.stream ∧ s.current.kind ≠ .error ∧
    InOrder (passed ++ [s.current]) s.reports

/-- The next error that the user is told of is one of a token that the user has not been told of. -/
structure Ready (tokens : List Token) (s : State) : Prop where
  orderly : s.Orderly tokens
  fresh : s.panicking = false → s.Fresh tokens

theorem Fresh.orderly (h : s.Fresh tokens) : s.Orderly tokens := by
  obtain ⟨passed, htokens, hcurrent, horder⟩ := h
  exact ⟨passed, htokens, hcurrent, horder.append (by simpa using hcurrent)⟩

theorem Fresh.ready (h : s.Fresh tokens) : s.Ready tokens := ⟨h.orderly, fun _ => h⟩

/-- An error of the current token is told unless it is an echo. -/
theorem Ready.report (h : s.Ready tokens) (hcause : Grammatical cause) :
    (s.report s.current cause).Ready tokens := by
  refine ⟨?_, nofun⟩
  cases hpanicking : s.panicking with
  | true =>
    obtain ⟨passed, htokens, hcurrent, horder⟩ := h.orderly
    refine ⟨passed, htokens, hcurrent, ?_⟩
    rw [State.report, hpanicking]
    exact horder.echo _ _
  | false =>
    obtain ⟨passed, htokens, hcurrent, horder⟩ := h.fresh hpanicking
    refine ⟨passed, htokens, hcurrent, ?_⟩
    rw [State.report, hpanicking]
    exact horder.report hcurrent hcause

theorem pullFrom_fresh {ts : List Token} (htokens : tokens = passed ++ ts)
    (horder : InOrder passed s.reports) (h : s.pullFrom ts = some r) : r.Fresh tokens := by
  induction ts generalizing s passed with
  | nil => cases h
  | cons t ts ih =>
    unfold pullFrom at h
    split at h
    next ht => exact ih (by simpa using htokens) (horder.error ht) h
    next ht =>
      obtain rfl := Option.some.inj h
      exact ⟨passed, htokens, ht, horder⟩

theorem Orderly.pull (h : s.Orderly tokens) (hr : s.pull = some r) : r.Fresh tokens := by
  obtain ⟨passed, htokens, -, horder⟩ := h
  exact pullFrom_fresh (by simpa [stream] using htokens) horder hr

/-- If the parser does not panic in the one state, nothing was reported since the other. -/
def Quiet (s r : State) : Prop := r.panicking = false → s.panicking = false ∧ s.reports = r.reports

theorem Quiet.refl (s : State) : Quiet s s := fun h => ⟨h, rfl⟩

theorem Quiet.trans (h : Quiet s r) (h' : Quiet r u) : Quiet s u := fun hu => by
  obtain ⟨hr, hreports⟩ := h' hu
  exact ⟨(h hr).1, (h hr).2.trans hreports⟩

theorem pullFrom_quiet {ts : List Token} (h : s.pullFrom ts = some r) : Quiet s r := by
  induction ts generalizing s with
  | nil => cases h
  | cons t ts ih =>
    unfold pullFrom at h
    split at h
    · intro hr
      cases (ih h hr).1
    · obtain rfl := Option.some.inj h
      exact fun hr => ⟨hr, rfl⟩

end State

/-- A step that keeps the order. If it succeeds, it has not moved back. -/
def Result.Steady (tokens : List Token) (s : State) : Result α → Prop
  | .ok _ r => r.Ready tokens ∧ r.stream <:+ s.stream ∧ State.Quiet s r
  | .bad r => r.Ready tokens
  | .halt _ r => r.Orderly tokens

theorem steady_bind {p : Parser α} {f : α → Parser β} (hp : (p s).Steady tokens s)
    (hf : ∀ a r, r.Ready tokens → (f a r).Steady tokens r) :
    ((p >>= f) s).Steady tokens s := by
  change (Parser.bind p f s).Steady tokens s
  unfold Parser.bind
  cases hps : p s with
  | ok a r =>
    rw [hps] at hp
    obtain ⟨hready, hsuffix, hquiet⟩ := hp
    have hr := hf a r hready
    dsimp only
    cases hfr : f a r with
    | ok b u =>
      rw [hfr] at hr
      exact ⟨hr.1, hr.2.1.trans hsuffix, hquiet.trans hr.2.2⟩
    | bad u | halt cause u =>
      rw [hfr] at hr
      exact hr
  | bad r | halt cause r =>
    rw [hps] at hp
    exact hp

theorem advance_steady (hs : s.Orderly tokens) (hend : s.atEnd = false) :
    (advance s).Steady tokens s := by
  unfold advance
  rw [hend]
  cases hpull : s.pull with
  | none => exact hs
  | some r =>
    exact ⟨(hs.pull hpull).ready, (State.pull_suffix hpull).trans s.rest_suffix,
      State.pullFrom_quiet hpull⟩

/-- If what follows the token was quiet, nobody has been told of the token yet. -/
theorem blame_ready {t : Token} (hs : s.Ready tokens) (hr : r.Ready tokens)
    (hcurrent : s.current = t) (hsuffix : r.stream <:+ s.rest) (hquiet : State.Quiet s r)
    (hcause : Grammatical cause) : (r.report t cause).Ready tokens := by
  refine ⟨?_, nofun⟩
  cases hpanicking : r.panicking with
  | true =>
    obtain ⟨passed, htokens, hsettled, horder⟩ := hr.orderly
    refine ⟨passed, htokens, hsettled, ?_⟩
    rw [State.report, hpanicking]
    exact horder.echo _ _
  | false =>
    obtain ⟨hcalm, hreports⟩ := hquiet hpanicking
    obtain ⟨before, hbefore, -, horder⟩ := hs.fresh hcalm
    obtain ⟨passed, hpassed, hsettled, hall⟩ := hr.fresh hpanicking
    -- the token is among those passed since
    obtain ⟨between, hbetween⟩ := hsuffix
    have hsplit : passed = before ++ t :: between := by
      have hstream : passed ++ r.stream = (before ++ t :: between) ++ r.stream := by
        rw [← hpassed, hbefore, State.stream, hcurrent, ← hbetween]
        simp
      exact List.append_cancel_right hstream
    refine ⟨passed, hpassed, hsettled, ?_⟩
    rw [State.report, hpanicking]
    refine (hall.blame hcause ?_).append (by simpa using hsettled)
    rw [← hreports, hsplit]
    exact horder.sublist.append (by simp)

theorem blaming_steady {p : Parser α} {bad : α → Bool} (hs : s.Ready tokens)
    (hend : s.atEnd = false) (hp : ∀ u, u.Ready tokens → (p u).Steady tokens u)
    (hcause : Grammatical cause) : (blaming p bad cause s).Steady tokens s := by
  cases hpull : s.pull with
  | none =>
    have hadvance : advance s = .halt .outOfTokens s := by simp [advance, hend, hpull]
    rw [blaming, bind_of_halt hadvance]
    exact hs.orderly
  | some u =>
    have hadvance : advance s = .ok s.current u := by simp [advance, hend, hpull]
    have hsuffix := State.pull_suffix hpull
    have hquiet := State.pullFrom_quiet hpull
    have hsteady := hp u (hs.orderly.pull hpull).ready
    rw [blaming, bind_of_ok hadvance]
    cases hps : p u with
    | bad r =>
      rw [hps] at hsteady
      rw [bind_of_bad hps]
      exact hsteady
    | halt cause r =>
      rw [hps] at hsteady
      rw [bind_of_halt hps]
      exact hsteady
    | ok a r =>
      rw [hps] at hsteady
      obtain ⟨hready, hlater, hstill⟩ := hsteady
      have hpassed : r.stream <:+ s.rest := hlater.trans hsuffix
      rw [bind_of_ok hps]
      cases bad a with
      | false => exact ⟨hready, hpassed.trans s.rest_suffix, hquiet.trans hstill⟩
      | true =>
        exact ⟨blame_ready hs hready rfl hpassed (hquiet.trans hstill) hcause,
          hpassed.trans s.rest_suffix, fun hcalm => Bool.noConfusion hcalm⟩

theorem Plain.steady {k : Option Kind} {p : Parser α} (hp : Plain k p)
    (hk : ∀ kind ∈ k, s.current.kind = kind) (hs : s.Ready tokens) :
    (p s).Steady tokens s := by
  induction hp generalizing s with
  | halt => exact hs.orderly
  | pure => exact ⟨hs, List.suffix_rfl, .refl s⟩
  | reportHere hcause => exact ⟨hs.report hcause, List.suffix_rfl, nofun⟩
  | fail hcause => exact hs.report hcause
  | bind _ _ ihp ihf => exact steady_bind (ihp hk hs) fun a r => ihf a nofun
  | peek _ ih => exact ih s.current.kind (s := s) (by simp) hs
  | anywhere _ ih => exact ih nofun hs
  | advance hkind =>
    exact advance_steady hs.orderly (by simp [State.atEnd, hk _ rfl, hkind.2.2])
  | blaming hkind _ hcause ih =>
    exact blaming_steady hs (by simp [State.atEnd, hk _ rfl, hkind.2.2]) (fun u => ih nofun) hcause

end Parse
end Scriptlet

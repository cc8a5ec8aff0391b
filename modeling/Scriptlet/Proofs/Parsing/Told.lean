import Scriptlet.Proofs.Parsing.Transport

/-! An echo follows an error that the user has been told of. So no program is given up in silence.
-/
namespace Scriptlet.Parse

namespace State

/-- The first report is no echo. So the user is told of something once there is a report, and the
more so while the parser panics. -/
def Tells (s : State) : Prop :=
  s.panicking = true ∨ s.reports ≠ [] → Diagnostic.told s.reports ≠ []

variable {s r : State}

theorem Tells.calm (h : s.Tells) : s.calm.Tells := by
  intro hreports
  rcases hreports with hpanicking | hreports
  · cases hpanicking
  · exact h (.inr hreports)

theorem Tells.report (h : s.Tells) (t : Token) (cause : SyntaxError) :
    (s.report t cause).Tells := by
  intro _
  cases hpanicking : s.panicking with
  | false => simp [State.report, Diagnostic.told, hpanicking]
  | true =>
    have htold := h (.inl hpanicking)
    rw [Diagnostic.told] at htold ⊢
    simp only [State.report, List.filter_append]
    exact List.append_ne_nil_of_left_ne_nil htold _

theorem Tells.pullFrom {ts : List Token} (h : s.Tells) (hpull : s.pullFrom ts = some r) :
    r.Tells := by
  induction ts generalizing s with
  | nil => simp [State.pullFrom] at hpull
  | cons t ts ih =>
    unfold State.pullFrom at hpull
    split at hpull
    · exact ih (h.calm.report _ _) hpull
    · obtain rfl := Option.some.inj hpull
      exact h

theorem tells_invariant : Invariant Tells where
  report t cause hs := hs.report t cause
  calm hs := hs.calm
  pull hs _ hr := hs.pullFrom hr

end State

/-- What has been reported in the end. -/
def Ending.reports : Ending → List Diagnostic
  | .done s => s.reports
  | .halted .nesting s => (s.calm.report s.current .tooDeep).reports
  | .halted _ s => s.reports

theorem Ending.close_eq_ok {ending : Ending} {statements : List (Stmt Unit)} {parsed : Parsed}
    (h : ending.close statements = .ok parsed) :
    parsed.statements = statements ∧ parsed.reports = ending.reports := by
  cases ending with
  | done s =>
    obtain rfl := Except.ok.inj h
    exact ⟨rfl, rfl⟩
  | halted cause s =>
    cases cause with
    | nesting =>
      obtain rfl := Except.ok.inj h
      exact ⟨rfl, rfl⟩
    | outOfTokens | badNumber | outOfFuel => cases h

end Parse

open Parse

theorem program_of_parse {room : Nat} {tokens : List Token} {parsed : Parsed}
    (h : parse room tokens = .ok parsed) :
    ∃ s, State.start? tokens = some s ∧
      parsed.statements =
        (program (rulesPerToken * (tokens.length + 2)) (operandRules + room) s).1 ∧
      parsed.reports =
        (program (rulesPerToken * (tokens.length + 2)) (operandRules + room) s).2.reports := by
  unfold parse at h
  cases hstart : State.start? tokens with
  | none =>
    rw [hstart] at h
    cases h
  | some s =>
    rw [hstart] at h
    exact ⟨s, rfl, Ending.close_eq_ok h⟩

/-- If anything is wrong with the syntax, the user is told of it. -/
theorem told_ne_nil {room : Nat} {tokens : List Token} {parsed : Parsed}
    (h : parse room tokens = .ok parsed) (hreports : parsed.reports ≠ []) :
    Diagnostic.told parsed.reports ≠ [] := by
  obtain ⟨s, hstart, -, hend⟩ := program_of_parse h
  have hs : s.Tells := State.Tells.pullFrom (fun hnone => by simp at hnone) hstart
  have htells := program_keeps State.tells_invariant (rulesPerToken * (tokens.length + 2))
    (operandRules + room) hs
  rw [hend] at hreports ⊢
  generalize (program (rulesPerToken * (tokens.length + 2)) (operandRules + room) s).2 = ending
    at htells hreports ⊢
  cases ending with
  | done r => exact htells (.inr hreports)
  | halted cause r =>
    cases cause with
    | nesting => exact (htells.calm.report _ _) (.inr hreports)
    | outOfTokens | badNumber | outOfFuel => exact htells (.inr hreports)

end Scriptlet

import Scriptlet.Proofs.Parsing.Fuel
import Scriptlet.Proofs.Parsing.Local

/-! Neither tokens that are not needed nor what came before a declaration make a difference to
parsing. So from each declaration on, a program is parsed as if it began there. -/
namespace Scriptlet.Parse

variable {s r : State} {n m room : Nat}

namespace State

/-- More was reported before the state. -/
def withPast (past : List Diagnostic) (s : State) : State :=
  { s with reports := past ++ s.reports }

theorem pullFrom_withPast (past : List Diagnostic) (s : State) (ts : List Token) :
    (s.withPast past).pullFrom ts = (s.pullFrom ts).map (withPast past) := by
  induction ts generalizing s with
  | nil => rfl
  | cons t ts ih =>
    rw [pullFrom, pullFrom]
    split
    · rw [← ih]
      simp [withPast, report, calm]
    · rfl

theorem withPast_transport (past : List Diagnostic) : Transport (withPast past) where
  current _ := rfl
  report_eq s t cause := by simp [withPast, State.report]
  calm_eq _ := rfl
  pull_eq s := pullFrom_withPast past s s.rest

/-- No error token ever becomes the current one. -/
theorem pullFrom_settled {ts : List Token} (h : s.pullFrom ts = some r) :
    r.current.kind ≠ .error := by
  induction ts generalizing s with
  | nil => cases h
  | cons t ts ih =>
    unfold pullFrom at h
    split at h
    next => exact ih h
    next herror =>
      obtain rfl := Option.some.inj h
      exact herror

theorem settled_invariant : Invariant fun s => s.current.kind ≠ .error where
  report _ _ hs := hs
  calm hs := hs
  pull _ _ hr := pullFrom_settled hr

end State

/-- What comes of the declarations from the state on. -/
def outcome (n room : Nat) (s : State) : Except ParseFault Parsed :=
  (program n room s).2.close (program n room s).1

/-- With these statements and reports before. -/
def Parsed.after (statements : List (Stmt Unit)) (reports : List Diagnostic) (p : Parsed) :
    Parsed :=
  ⟨statements ++ p.statements, reports ++ p.reports⟩

theorem outcome_eq (hn : rulesPerToken * s.rest.length + 14 < n) (h : n ≤ m) :
    outcome m room s = outcome n room s := by
  unfold outcome
  rw [program_eq hn h]

theorem outcome_withPast (past : List Diagnostic) (n room : Nat) (s : State) :
    outcome n room (s.withPast past) = (outcome n room s).map (Parsed.after [] past) := by
  unfold outcome
  rw [program_transport (State.withPast_transport past) n]
  cases (program n room s).2 with
  | done r => rfl
  | halted cause r =>
    cases cause with
    | nesting =>
      simp [Ending.onState, Ending.close, Except.map, Parsed.after, State.withPast, State.report,
        State.calm]
    | outOfTokens | badNumber | outOfFuel => rfl

/-- A declaration starts calm, whatever was before. -/
theorem declaration_calm (n : Nat) (c : Context) (s : State) :
    declaration (n + 1) c s.calm = declaration (n + 1) c s := by
  rw [declaration_succ]
  rfl

theorem outcome_calm (n room : Nat) (s : State) : outcome n room s.calm = outcome n room s := by
  cases n with
  | zero => rfl
  | succ n =>
    unfold outcome program
    have hend : s.calm.atEnd = s.atEnd := rfl
    rw [hend]
    cases s.atEnd with
    | true => rfl
    | false =>
      simp only [Bool.false_eq_true, if_false]
      cases n with
      | zero => rfl
      | succ n => rw [declaration_calm]

theorem outcome_next {d : Option (Stmt Unit)} (hend : s.atEnd = false)
    (hd : declaration n (.top room) s = .ok d r) :
    outcome (n + 1) room s = (outcome n room r).map (Parsed.after d.toList []) := by
  unfold outcome
  rw [program, hend, hd]
  simp only [Bool.false_eq_true, if_false]
  cases (program n room r).2 with
  | done u => rfl
  | halted cause u => cases cause <;> rfl

end Parse

open Parse

theorem parse_of_start {tokens : List Token} {s : State} (h : State.start? tokens = some s) :
    parse room tokens = outcome (rulesPerToken * (tokens.length + 2)) (operandRules + room) s := by
  unfold parse
  rw [h]
  rfl

theorem start_fuel {tokens : List Token} {s : State} (h : State.start? tokens = some s) :
    rulesPerToken * s.rest.length + 14 < rulesPerToken * (tokens.length + 2) := by
  have hlength : s.rest.length < tokens.length := length_lt_of_suffix (State.pullFrom_suffix h)
  simp only [rulesPerToken]
  omega

/-- More tokens make no difference, if the parse does not fail for want of them. -/
theorem parse_append {tokens : List Token} (h : parse room tokens ≠ .error .outOfTokens)
    (us : List Token) : parse room (tokens ++ us) = parse room tokens := by
  obtain ⟨s, hstart, hmore⟩ | ⟨hnone, -⟩ :=
    State.pullFrom_followedBy us ⟨default, tokens, false, []⟩ tokens
  · have hstart : State.start? tokens = some s := hstart
    have hmore : State.start? (tokens ++ us) = some (s.followedBy us) := hmore
    have hlength : tokens.length ≤ (tokens ++ us).length := by simp
    rw [parse_of_start hstart] at h ⊢
    rw [parse_of_start hmore]
    rw [← outcome_eq (start_fuel hstart)
      (Nat.mul_le_mul_left _ (Nat.add_le_add_right hlength 2))] at h ⊢
    unfold outcome at h ⊢
    obtain ⟨r, hr⟩ | heq := program_followedBy us (rulesPerToken * ((tokens ++ us).length + 2)) s
    · rw [hr] at h
      exact absurd rfl h
    · rw [heq]
      cases (program (rulesPerToken * ((tokens ++ us).length + 2)) (operandRules + room) s).2 with
      | done r => rfl
      | halted cause r => cases cause <;> rfl
  · have hstart : State.start? tokens = none := hnone
    refine absurd ?_ h
    unfold parse
    rw [hstart]

namespace Parse

/-- A parser that begins at a state does from there what the state's parser does. -/
theorem outcome_eq_parse (hs : s.current.kind ≠ .error)
    (hn : rulesPerToken * s.rest.length + 14 < n) :
    outcome n (operandRules + room) s = (parse room s.stream).map (Parsed.after [] s.reports) := by
  have hstart : State.start? s.stream = some ⟨s.current, s.rest, false, []⟩ := by
    unfold State.start? State.pull State.stream
    rw [State.pullFrom, if_neg hs]
  have hpast : s.calm = State.withPast s.reports ⟨s.current, s.rest, false, []⟩ := by
    simp [State.calm, State.withPast]
  rw [parse_of_start hstart, ← outcome_calm, hpast, outcome_withPast]
  have hfuel := start_fuel hstart
  rcases Nat.le_total n (rulesPerToken * (s.stream.length + 2)) with h | h
  · refine congrArg _ (outcome_eq ?_ h).symm
    exact hn
  · exact congrArg _ (outcome_eq hfuel h)

/-- The states of a parser between two declarations of the top level, the states before the first
and after the last one among them, and the statements that the declarations before gave. -/
inductive Between (room : Nat) (tokens : List Token) : List (Stmt Unit) → State → Prop where
  | start {s : State} (h : State.start? tokens = some s) : Between room tokens [] s
  | next {statements : List (Stmt Unit)} {s r : State} {n : Nat} {d : Option (Stmt Unit)}
    (h : Between room tokens statements s) (hend : s.atEnd = false)
    (hd : declaration n (.top (operandRules + room)) s = .ok d r) :
      Between room tokens (statements ++ d.toList) r

theorem Between.settled {tokens : List Token} {statements : List (Stmt Unit)}
    (h : Between room tokens statements s) : s.current.kind ≠ .error := by
  induction h with
  | start h => exact State.pullFrom_settled h
  | @next _ s r n d _ _ hd ih =>
    have hkeeps := ((elementaryStmt n).declaration (.top (operandRules + room))).keeps
      State.settled_invariant ih
    rwa [hd] at hkeeps

theorem Between.outcome_eq {tokens : List Token} {statements : List (Stmt Unit)}
    (h : Between room tokens statements s) (hn : rulesPerToken * s.rest.length + 14 < n) :
    parse room tokens = (outcome n (operandRules + room) s).map (Parsed.after statements []) := by
  induction h generalizing n with
  | @start s h =>
    have hafter : Parsed.after [] [] = id := rfl
    rw [parse_of_start h, hafter, Except.map_id]
    rcases Nat.le_total n (rulesPerToken * (tokens.length + 2)) with hle | hle
    · exact Parse.outcome_eq hn hle
    · exact (Parse.outcome_eq (start_fuel h) hle).symm
  | @next statements s r k d _ hend hd ih =>
    let big := max (max n k) (rulesPerToken * s.rest.length + 14)
    have hdeclaration : declaration big (.top (operandRules + room)) s = .ok d r := by
      rcases (outlastedStmt (by omega : k ≤ big)).declaration (.top (operandRules + room)) s with
        ⟨u, hu⟩ | hsame
      · cases hd.symm.trans hu
      · exact hsame.trans hd
    rw [ih (by omega : rulesPerToken * s.rest.length + 14 < big + 1),
      outcome_next hend hdeclaration, Parse.outcome_eq hn (by omega : n ≤ big)]
    cases outcome n (operandRules + room) r with
    | error e => rfl
    | ok p => simp [Except.map, Parsed.after]

/-- From each declaration on, a program is parsed as if it began there. -/
theorem Between.resume {tokens : List Token} {statements : List (Stmt Unit)}
    (h : Between room tokens statements s) :
    parse room tokens = (parse room s.stream).map (Parsed.after statements s.reports) := by
  have hfuel := Nat.lt_succ_self (rulesPerToken * s.rest.length + 14)
  rw [h.outcome_eq hfuel, outcome_eq_parse h.settled hfuel]
  cases parse room s.stream with
  | error e => rfl
  | ok p => simp [Except.map, Parsed.after]

end Parse
end Scriptlet

import Scriptlet.Proofs.Parsing.Elementary

/-! What does not touch a parser's state but for the tokens it pulls, the reports it adds and the
panic it gets over: properties that these three steps keep, and changes of the state that go through
them. -/
namespace Scriptlet.Parse

variable {α β : Type} {s r : State} {n room : Nat}

/-- The steps of which all changes of a state are made keep the property. -/
structure Invariant (P : State → Prop) : Prop where
  report {s : State} (t : Token) (cause : SyntaxError) (hs : P s) : P (s.report t cause)
  calm {s : State} (hs : P s) : P s.calm
  pull {s r : State} (hs : P s) (hend : s.atEnd = false) (hr : s.pull = some r) : P r

/-- A change of states that makes no difference to these steps. -/
structure Transport (f : State → State) : Prop where
  current (s : State) : (f s).current = s.current
  report_eq (s : State) (t : Token) (cause : SyntaxError) :
    (f s).report t cause = f (s.report t cause)
  calm_eq (s : State) : (f s).calm = f s.calm
  pull_eq (s : State) : (f s).pull = s.pull.map f

namespace Result

def state : Result α → State
  | .ok _ s | .bad s | .halt _ s => s

def onState (f : State → State) : Result α → Result α
  | .ok a s => .ok a (f s)
  | .bad s => .bad (f s)
  | .halt cause s => .halt cause (f s)

end Result

namespace State

theorem atEnd_of_onward {inBlock : Bool} {depth : Nat} {l : Landing}
    (h : landing inBlock s.current.kind depth = l) (hl : l ≠ .here) : s.atEnd = false := by
  cases hend : s.atEnd with
  | false => rfl
  | true =>
    rw [eq_of_beq hend] at h
    exact absurd h.symm hl

/-- Recovery is nothing but pulling. -/
theorem recover_keeps {P : State → Prop}
    (hpull : ∀ {s r : State}, P s → s.atEnd = false → s.pull = some r → P r) {inBlock : Bool}
    {depth : Nat} (hs : P s) (h : s.recover inBlock depth = some r) : P r := by
  fun_induction recover s inBlock depth with
  | case1 s depth hlanding =>
    obtain rfl := Option.some.inj h
    exact hs
  | case2 s depth hlanding => exact hpull hs (atEnd_of_onward hlanding (by simp)) h
  | case3 s depth depth' hlanding hnone => cases h
  | case4 s depth depth' hlanding u hu ih =>
    exact ih (hpull hs (atEnd_of_onward hlanding (by simp)) hu) h

end State

theorem keeps_bind {P : State → Prop} {p : Parser α} {f : α → Parser β} (hp : P (p s).state)
    (hf : ∀ a r, P r → P (f a r).state) : P ((p >>= f) s).state := by
  change P (Parser.bind p f s).state
  unfold Parser.bind
  cases hps : p s with
  | ok a r =>
    rw [hps] at hp
    exact hf a r hp
  | bad r | halt cause r =>
    rw [hps] at hp
    exact hp

theorem onState_bind {f : State → State} {p : Parser α} {g : α → Parser β}
    (hp : p (f s) = (p s).onState f) (hg : ∀ a r, g a (f r) = (g a r).onState f) :
    (p >>= g) (f s) = ((p >>= g) s).onState f := by
  change Parser.bind p g (f s) = (Parser.bind p g s).onState f
  unfold Parser.bind
  rw [hp]
  cases p s with
  | ok a r => exact hg a r
  | bad r | halt cause r => rfl

namespace Invariant

variable {P : State → Prop}

theorem advance (hP : Invariant P) (hs : P s) : P (Parse.advance s).state := by
  unfold Parse.advance
  cases hend : s.atEnd with
  | true => exact hs
  | false =>
    cases hpull : s.pull with
    | none => exact hs
    | some r => exact hP.pull hs hend hpull

theorem numberLiteral (hP : Invariant P) (hs : P s) : P (Parse.numberLiteral s).state := by
  refine keeps_bind (hP.advance hs) fun t r hr => ?_
  cases readNumber? t.lexeme <;> exact hr

theorem recovering (hP : Invariant P) {p : Parser α} (inBlock : Bool) (hp : P (p s.calm).state) :
    P (Parse.recovering inBlock p s).state := by
  unfold Parse.recovering
  cases hps : p s.calm with
  | ok a r | halt cause r =>
    rw [hps] at hp
    exact hp
  | bad r =>
    rw [hps] at hp
    cases hr : r.recover inBlock 0 with
    | none =>
      simp only [hr]
      exact hp
    | some u =>
      simp only [hr]
      exact State.recover_keeps hP.pull hp hr

end Invariant

theorem Elementary.keeps {P : State → Prop} (hP : Invariant P) {p : Parser α} (hp : Elementary p)
    (hs : P s) : P (p s).state := by
  induction hp generalizing s with
  | pure | halt | peek | check => exact hs
  | advance => exact hP.advance hs
  | report | reportHere | fail => exact hP.report _ _ hs
  | bind _ _ ihp ihf => exact keeps_bind (ihp hs) fun a r hr => ihf a hr
  | @number f hnumber hf ih =>
    change P (f s.current.kind s).state
    by_cases hk : s.current.kind = .number
    · rw [hk, hnumber]
      exact hP.numberLiteral hs
    · exact ih _ hk hs
  | recovering _ ih => exact hP.recovering _ (ih (hP.calm hs))

namespace Transport

variable {f : State → State}

theorem atEnd (hf : Transport f) (s : State) : (f s).atEnd = s.atEnd := by
  unfold State.atEnd
  rw [hf.current]

theorem recover (hf : Transport f) (s : State) (inBlock : Bool) (depth : Nat) :
    (f s).recover inBlock depth = (s.recover inBlock depth).map f := by
  have hkind {s : State} {depth : Nat} {l : State.Landing}
      (h : State.landing inBlock s.current.kind depth = l) :
      State.landing inBlock (f s).current.kind depth = l := hf.current s ▸ h
  fun_induction State.recover s inBlock depth with
  | case1 s depth hlanding =>
    rw [State.recover, hkind hlanding]
    rfl
  | case2 s depth hlanding =>
    rw [State.recover, hkind hlanding]
    exact hf.pull_eq s
  | case3 s depth depth' hlanding hnone =>
    have hpull := hf.pull_eq s
    rw [hnone] at hpull
    rw [State.recover, hkind hlanding]
    dsimp only
    split
    next => rfl
    next r hr => cases hpull.symm.trans hr
  | case4 s depth depth' hlanding u hu ih =>
    have hpull := hf.pull_eq s
    rw [hu] at hpull
    rw [State.recover, hkind hlanding]
    dsimp only
    split
    next hnone => cases hpull.symm.trans hnone
    next r hr =>
      obtain rfl := Option.some.inj (hpull.symm.trans hr)
      exact ih

theorem advance (hf : Transport f) (s : State) :
    Parse.advance (f s) = (Parse.advance s).onState f := by
  unfold Parse.advance
  rw [hf.atEnd, hf.current, hf.pull_eq]
  cases s.atEnd with
  | true => rfl
  | false => cases s.pull <;> rfl

end Transport

/-- A parser does the same after the change, and its state is the changed one. -/
theorem Elementary.transport {f : State → State} (hf : Transport f) {p : Parser α}
    (hp : Elementary p) (s : State) : p (f s) = (p s).onState f := by
  induction hp generalizing s with
  | pure | halt => rfl
  | peek => exact congrArg (fun t : Token => Result.ok t.kind (f s)) (hf.current s)
  | check kind =>
    exact congrArg (fun t : Token => Result.ok (t.kind == kind) (f s)) (hf.current s)
  | advance => exact hf.advance s
  | report t cause => exact congrArg (Result.ok ()) (hf.report_eq s t cause)
  | reportHere cause =>
    change Result.ok () ((f s).report (f s).current cause) = _
    rw [hf.current, hf.report_eq]
    rfl
  | fail cause =>
    change Result.bad ((f s).report (f s).current cause) = _
    rw [hf.current, hf.report_eq]
    rfl
  | bind _ _ ihp ihf => exact onState_bind (ihp s) ihf
  | @number g hnumber _ ih =>
    change g (f s).current.kind (f s) = (g s.current.kind s).onState f
    rw [hf.current]
    by_cases hk : s.current.kind = .number
    · rw [hk, hnumber]
      refine onState_bind (hf.advance s) fun t r => ?_
      cases readNumber? t.lexeme <;> rfl
    · exact ih _ hk s
  | @recovering _ inBlock p _ ih =>
    unfold Parse.recovering
    rw [hf.calm_eq, ih]
    cases p s.calm with
    | ok a r | halt cause r => rfl
    | bad r =>
      simp only [Result.onState]
      rw [hf.recover]
      cases r.recover inBlock 0 <;> rfl

namespace Ending

def state : Ending → State
  | done s | halted _ s => s

def onState (f : State → State) : Ending → Ending
  | done s => done (f s)
  | halted cause s => halted cause (f s)

end Ending

theorem program_keeps {P : State → Prop} (hP : Invariant P) (n room : Nat) (hs : P s) :
    P (program n room s).2.state := by
  induction n generalizing s with
  | zero => exact hs
  | succ n ih =>
    unfold program
    split
    · exact hs
    · have hd := ((elementaryStmt n).declaration (.top room)).keeps hP hs
      cases hdeclaration : declaration n (.top room) s with
      | ok d r =>
        rw [hdeclaration] at hd
        exact ih hd
      | bad r | halt cause r =>
        rw [hdeclaration] at hd
        exact hd

theorem program_transport {f : State → State} (hf : Transport f) (n : Nat) (s : State) :
    program n room (f s) = ((program n room s).1, (program n room s).2.onState f) := by
  induction n generalizing s with
  | zero => rfl
  | succ n ih =>
    rw [program, program, hf.atEnd, ((elementaryStmt n).declaration (.top room)).transport hf s]
    cases s.atEnd with
    | true => rfl
    | false =>
      cases declaration n (.top room) s with
      | bad r | halt cause r => rfl
      | ok d r => simp only [Result.onState, ih r, Bool.false_eq_true, if_false]

end Scriptlet.Parse

import Scriptlet.Proofs.Scoping.Scoped
import Scriptlet.Session

/-! How statements end early, and what the resolver says about it. -/
namespace Scriptlet

/-- The ways to leave a statement before its end, failures apart. -/
inductive Escape where
  | jump (j : Jump)
  | give
deriving DecidableEq, Repr

def Flow.escape? : Flow → Option Escape
  | .normal => none
  | .jump j => some (.jump j)
  | .give _ => some .give

variable {ρ : Type}

mutual

/-- Something in the statement can leave all of it in this way: a jump that stands in no loop of the
statement, or a return, and in either case in no function of the statement. Who leaves the step of a
loop goes on with the next round. -/
def Stmt.escapes (x : Escape) : Stmt ρ → Bool
  | .block body => Stmt.anyEscapes x body
  | .jump j _ => x == .jump j
  | .give _ _ => x == .give
  | .loop _ body | .doLoop body _ | .loopStep _ body _ => x == .give && body.escapes x
  | .ifThen _ body => body.escapes x
  | .ifElse _ first second => first.escapes x || second.escapes x
  | .switch _ arms => arms.escapes x
  | .expression _ | .print _ | .var _ _ | .function _ _ _ => false

def Stmt.anyEscapes (x : Escape) : List (Stmt ρ) → Bool
  | [] => false
  | s :: ss => s.escapes x || Stmt.anyEscapes x ss

def Arms.escapes (x : Escape) : Arms ρ → Bool
  | .done => false
  | .otherwise body => body.escapes x
  | .case _ body rest => body.escapes x || rest.escapes x

end

mutual

/-- Addresses make no difference to how a statement is left. -/
theorem Stmt.escapes_resolve (x : Escape) : (s : Stmt ρ) → (scopes : Scopes) →
    (s.resolve scopes).escapes x = s.escapes x
  | .block body, _ => Stmt.anyEscapes_resolve x body _
  | .loop _ body, scopes | .doLoop body _, scopes | .loopStep _ body _, scopes =>
    congrArg (x == .give && ·) (body.escapes_resolve x scopes)
  | .ifThen _ body, scopes => body.escapes_resolve x scopes
  | .ifElse _ first second, scopes =>
    congr (congrArg or (first.escapes_resolve x scopes)) (second.escapes_resolve x _)
  | .switch _ arms, scopes => arms.escapes_resolve x scopes
  | .jump _ _, _ | .give _ _, _ | .expression _, _ | .print _, _ | .var _ _, _
  | .function _ _ _, _ => rfl

theorem Stmt.anyEscapes_resolve (x : Escape) : (ss : List (Stmt ρ)) → (scopes : Scopes) →
    Stmt.anyEscapes x (Stmt.resolveAll scopes ss) = Stmt.anyEscapes x ss
  | [], _ => rfl
  | s :: ss, scopes =>
    congr (congrArg or (s.escapes_resolve x scopes)) (Stmt.anyEscapes_resolve x ss _)

theorem Arms.escapes_resolve (x : Escape) : (as : Arms ρ) → (scopes : Scopes) →
    (as.resolve scopes).escapes x = as.escapes x
  | .done, _ => rfl
  | .otherwise body, scopes => body.escapes_resolve x scopes
  | .case _ body rest, scopes =>
    congr (congrArg or (body.escapes_resolve x scopes)) (rest.escapes_resolve x _)

end

def Stmt.isLoop : Stmt ρ → Bool
  | .loop _ _ | .doLoop _ _ | .loopStep _ _ _ => true
  | _ => false

/-- A jump has to end at the latest with the loop that it stands in. -/
theorem Stmt.not_escapes_of_isLoop {s : Stmt ρ} (hs : s.isLoop = true) (j : Jump) :
    s.escapes (.jump j) = false := by
  cases s with
  | loop | doLoop | loopStep => rfl
  | _ => cases hs

/-- There is something around the statement that can be left in this way. -/
def Surroundings.permits (c : Surroundings) : Escape → Bool
  | .jump _ => c.inLoop
  | .give => c.inFunction

theorem Surroundings.permits_of_loop {c : Surroundings} {x : Escape}
    (h : c.loop.permits x = true) : (x == .give) = true → c.permits x = true := by
  intro hx
  obtain rfl := eq_of_beq hx
  exact h

mutual

/-- What the resolver has no complaint about is left only where it can be. -/
theorem Stmt.permitted_of_check : (s : Stmt ρ) → {c : Surroundings} → {Γ : Scopes} →
    s.check c Γ = [] → {x : Escape} → s.escapes x = true → c.permits x = true
  | .block body, _, _, hcheck, _, hx => Stmt.permitted_of_checkAll body hcheck hx
  | .jump j _, c, _, hcheck, x, hx => by
    obtain rfl := eq_of_beq hx
    simpa [Surroundings.permits] using reportIf_eq_nil.1 hcheck
  | .give _ _, c, _, hcheck, x, hx => by
    obtain rfl := eq_of_beq hx
    obtain ⟨hreturn, -⟩ := List.append_eq_nil_iff.1 hcheck
    simpa [Surroundings.permits] using reportIf_eq_nil.1 hreturn
  | .loop _ body, _, _, hcheck, _, hx => by
    obtain ⟨hgive, hbody⟩ := Bool.and_eq_true_iff.1 hx
    obtain ⟨-, hcheck⟩ := List.append_eq_nil_iff.1 hcheck
    exact Surroundings.permits_of_loop (body.permitted_of_check hcheck hbody) hgive
  | .doLoop body _, _, _, hcheck, _, hx => by
    obtain ⟨hgive, hbody⟩ := Bool.and_eq_true_iff.1 hx
    obtain ⟨hcheck, -⟩ := List.append_eq_nil_iff.1 hcheck
    exact Surroundings.permits_of_loop (body.permitted_of_check hcheck hbody) hgive
  | .loopStep _ body _, _, _, hcheck, _, hx => by
    obtain ⟨hgive, hbody⟩ := Bool.and_eq_true_iff.1 hx
    obtain ⟨hboth, -⟩ := List.append_eq_nil_iff.1 hcheck
    obtain ⟨-, hcheck⟩ := List.append_eq_nil_iff.1 hboth
    exact Surroundings.permits_of_loop (body.permitted_of_check hcheck hbody) hgive
  | .ifThen _ body, _, _, hcheck, _, hx => by
    obtain ⟨-, hcheck⟩ := List.append_eq_nil_iff.1 hcheck
    exact body.permitted_of_check hcheck hx
  | .ifElse _ first second, _, _, hcheck, _, hx => by
    obtain ⟨hboth, hsecond⟩ := List.append_eq_nil_iff.1 hcheck
    obtain ⟨-, hfirst⟩ := List.append_eq_nil_iff.1 hboth
    rcases (Bool.or_eq_true _ _).mp hx with hx | hx
    · exact first.permitted_of_check hfirst hx
    · exact second.permitted_of_check hsecond hx
  | .switch _ arms, _, _, hcheck, _, hx => by
    obtain ⟨-, hcheck⟩ := List.append_eq_nil_iff.1 hcheck
    exact arms.permitted_of_check hcheck hx
  | .expression _, _, _, _, _, hx | .print _, _, _, _, _, hx | .var _ _, _, _, _, _, hx
  | .function _ _ _, _, _, _, _, hx => by simp [Stmt.escapes] at hx

theorem Stmt.permitted_of_checkAll : (ss : List (Stmt ρ)) → {c : Surroundings} → {Γ : Scopes} →
    Stmt.checkAll c Γ ss = [] → {x : Escape} → Stmt.anyEscapes x ss = true → c.permits x = true
  | [], _, _, _, _, hx => by simp [Stmt.anyEscapes] at hx
  | s :: ss, _, _, hcheck, _, hx => by
    obtain ⟨hfirst, hrest⟩ := List.append_eq_nil_iff.1 hcheck
    rcases (Bool.or_eq_true _ _).mp hx with hx | hx
    · exact s.permitted_of_check hfirst hx
    · exact Stmt.permitted_of_checkAll ss hrest hx

theorem Arms.permitted_of_check : (as : Arms ρ) → {c : Surroundings} → {Γ : Scopes} →
    as.check c Γ = [] → {x : Escape} → as.escapes x = true → c.permits x = true
  | .done, _, _, _, _, hx => by simp [Arms.escapes] at hx
  | .otherwise body, _, _, hcheck, _, hx => body.permitted_of_check hcheck hx
  | .case _ body rest, _, _, hcheck, _, hx => by
    obtain ⟨hboth, hrest⟩ := List.append_eq_nil_iff.1 hcheck
    obtain ⟨-, hbody⟩ := List.append_eq_nil_iff.1 hboth
    rcases (Bool.or_eq_true _ _).mp hx with hx | hx
    · exact body.permitted_of_check hbody hx
    · exact rest.permitted_of_check hrest hx

end

/-- No statement of an accepted program can be left early. -/
theorem not_escapes_of_check {program : List (Stmt ρ)} (hcheck : check program = [])
    {s : Stmt ρ} (hs : s ∈ program) (x : Escape) : s.escapes x = false := by
  have hany : s.escapes x = true → Stmt.anyEscapes x program = true := by
    clear hcheck
    induction program with
    | nil => cases hs
    | cons t program ih =>
      intro hx
      rcases List.mem_cons.1 hs with rfl | hs
      · simp [Stmt.anyEscapes, hx]
      · simp [Stmt.anyEscapes, ih hs hx]
  cases hx : s.escapes x with
  | false => rfl
  | true =>
    have hpermits := Stmt.permitted_of_checkAll program hcheck (hany hx)
    cases x <;> cases hpermits

/-- A step that, if it comes to an end early, does so in one of these ways. -/
def Outcome.EndsBy (o : Outcome Flow) (E : Escape → Bool) : Prop :=
  ∀ flow m, o = .done flow m → ∀ x, flow.escape? = some x → E x = true

section

variable {α : Type} {E E' : Escape → Bool}

theorem Outcome.EndsBy.bind {o : Outcome α} {f : α → Machine → Outcome Flow}
    (hf : ∀ a m, o = .done a m → (f a m).EndsBy E) : (o.bind f).EndsBy E := by
  cases o with
  | done a m => exact hf a m rfl
  | stopped | outOfFuel => exact fun _ _ h => by cases h

theorem Outcome.EndsBy.guard {c : Context} {m : Machine} {f : Context → Outcome Flow}
    (hf : (f c).EndsBy E) : (c.guard m f).EndsBy E :=
  fun flow m' hdone => hf flow m' (Context.guard_eq_done hdone).2

theorem Outcome.EndsBy.mono {o : Outcome Flow} (h : o.EndsBy E)
    (hE : ∀ x, E x = true → E' x = true) : o.EndsBy E' :=
  fun flow m hdone x hx => hE x (h flow m hdone x hx)

theorem endsBy_normal (m : Machine) : (Outcome.done Flow.normal m).EndsBy E := by
  intro flow m' h x hx
  obtain ⟨rfl, -⟩ := Outcome.done.inj h
  cases hx

theorem endsBy_done (flow : Flow) {x : Escape} (hflow : flow.escape? = some x) (hx : E x = true)
    (m : Machine) : (Outcome.done flow m).EndsBy E := by
  intro flow' m' h y hy
  obtain ⟨rfl, -⟩ := Outcome.done.inj h
  obtain rfl := Option.some.inj (hflow.symm.trans hy)
  exact hx

end

/-- How execution with this much fuel ends early. -/
structure EscapingEval (n : Nat) : Prop where
  exec (c : Context) (s : Stmt Address) (m : Machine) : (exec n c s m).EndsBy fun x => s.escapes x
  execAll (c : Context) (ss : List (Stmt Address)) (m : Machine) :
    (execAll n c ss m).EndsBy fun x => Stmt.anyEscapes x ss
  execLoop (c : Context) (condition : Expr Address) (body : Stmt Address)
    (step : Option (Stmt Address)) (m : Machine) :
    (execLoop n c condition body step m).EndsBy fun x => x == .give && body.escapes x
  execDo (c : Context) (body : Stmt Address) (condition : Expr Address) (m : Machine) :
    (execDo n c body condition m).EndsBy fun x => x == .give && body.escapes x
  execArms (c : Context) (subject : Value) (as : Arms Address) (m : Machine) :
    (execArms n c subject as m).EndsBy fun x => as.escapes x

variable {n : Nat}

theorem escaping_exec_succ (ih : EscapingEval n) (c : Context) (s : Stmt Address) (m : Machine) :
    (exec (n + 1) c s m).EndsBy fun x => s.escapes x := by
  rw [exec]
  refine .guard ?_
  generalize c.deeper = c
  cases s with
  | block body => exact ih.execAll _ body _
  | jump j keyword =>
    refine endsBy_done (.jump j) rfl ?_ m
    simp [Stmt.escapes]
  | doLoop body condition => exact ih.execDo c body condition m
  | expression value | print value => exact .bind fun _ m _ => endsBy_normal _
  | function name params body => exact .bind fun _ m _ => endsBy_normal m
  | ifThen condition body =>
    refine .bind fun v m _ => ?_
    split
    · exact ih.exec c body m
    · exact endsBy_normal m
  | ifElse condition first second =>
    refine .bind fun v m _ => ?_
    split
    · exact (ih.exec c first m).mono fun x hx => by simp [Stmt.escapes, hx]
    · exact (ih.exec c second m).mono fun x hx => by simp [Stmt.escapes, hx]
  | give keyword value =>
    have hgive (v : Value) (m : Machine) :
        (Outcome.done (Flow.give v) m).EndsBy fun x => (Stmt.give keyword value).escapes x :=
      endsBy_done (.give v) rfl rfl m
    cases value with
    | none => exact hgive .nil m
    | some e => exact .bind fun v m _ => hgive v m
  | switch subject arms => exact .bind fun v m _ => ih.execArms c v arms m
  | var name init =>
    cases init with
    | none => exact .bind fun _ m _ => endsBy_normal m
    | some e => exact .bind fun v m _ => .bind fun _ m _ => endsBy_normal m
  | loop condition body => exact ih.execLoop c condition body none m
  | loopStep condition body step => exact ih.execLoop c condition body (some step) m

theorem escaping_execLoop_succ (ih : EscapingEval n) (c : Context) (condition : Expr Address)
    (body : Stmt Address) (step : Option (Stmt Address)) (m : Machine) :
    (execLoop (n + 1) c condition body step m).EndsBy fun x => x == .give && body.escapes x := by
  rw [execLoop]
  refine .bind fun v m _ => ?_
  split
  · refine .bind fun flow m' hbody => ?_
    have hagain (m : Machine) := ih.execLoop c condition body step m
    cases flow with
    | normal => cases step with
      | none => exact hagain m'
      | some s => exact .bind fun _ m _ => hagain m
    | give v =>
      exact endsBy_done (.give v) rfl (by simpa using ih.exec c body m _ _ hbody .give rfl) m'
    | jump j => cases j with
      | exit => exact endsBy_normal m'
      | again => cases step with
        | none => exact hagain m'
        | some s => exact .bind fun _ m _ => hagain m
  · exact endsBy_normal m

theorem escaping_execDo_succ (ih : EscapingEval n) (c : Context) (body : Stmt Address)
    (condition : Expr Address) (m : Machine) :
    (execDo (n + 1) c body condition m).EndsBy fun x => x == .give && body.escapes x := by
  rw [execDo]
  refine .bind fun flow m' hbody => ?_
  have hnext : ((eval n c condition m').bind fun v m =>
      if v.isTruthy then execDo n c body condition m else .done .normal m).EndsBy
        fun x => x == .give && body.escapes x := by
    refine .bind fun v m _ => ?_
    split
    · exact ih.execDo c body condition m
    · exact endsBy_normal m
  cases flow with
  | normal => exact hnext
  | give v =>
    exact endsBy_done (.give v) rfl (by simpa using ih.exec c body m _ _ hbody .give rfl) m'
  | jump j => cases j with
    | exit => exact endsBy_normal m'
    | again => exact hnext

theorem escapingEval (n : Nat) : EscapingEval n := by
  induction n with
  | zero => constructor <;> intros <;> exact fun _ _ h => by cases h
  | succ n ih =>
    refine ⟨escaping_exec_succ ih, fun c ss m => ?_, escaping_execLoop_succ ih,
      escaping_execDo_succ ih, fun c subject as m => ?_⟩
    · cases ss with
      | nil => exact endsBy_normal m
      | cons s ss =>
        rw [execAll]
        refine .bind fun flow m' hs => ?_
        have hfirst := ih.exec c s m flow m' hs
        cases flow with
        | normal =>
          exact (ih.execAll c ss m').mono fun x hx => by simp [Stmt.anyEscapes, hx]
        | give v => exact endsBy_done (.give v) rfl (by simp [Stmt.anyEscapes, hfirst _ rfl]) m'
        | jump j => exact endsBy_done (.jump j) rfl (by simp [Stmt.anyEscapes, hfirst _ rfl]) m'
    · cases as with
      | done => exact endsBy_normal m
      | otherwise body => exact ih.exec c body m
      | case condition body rest =>
        rw [execArms]
        refine .bind fun v m _ => ?_
        split
        · exact (ih.exec c body m).mono fun x hx => by simp [Arms.escapes, hx]
        · exact (ih.execArms c subject rest m).mono fun x hx => by simp [Arms.escapes, hx]

end Scriptlet

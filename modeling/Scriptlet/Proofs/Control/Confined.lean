import Scriptlet.Proofs.Control.Escapes
import Scriptlet.Proofs.Scoping.Sessions
import Scriptlet.Proofs.Renaming.Law

/-! Jumps and returns end nothing but what they stand in. -/
namespace Scriptlet

variable {starts : Place → Task → Prop} {p : Place} {scopes : Scopes}

namespace Task

/-- The resolver comes to the piece of the program with these scopes, and has no complaint. -/
def Accepted (scopes : Scopes) : Task → Prop
  | expr .. | exprs .. | call .. => True
  | stmt _ _ s _ => ∃ c, s.check c scopes = []
  | stmts _ _ ss _ | program _ _ ss _ => ∃ c, Stmt.checkAll c scopes ss = []
  | rounds _ _ _ body step _ => (∃ c, body.check c scopes = []) ∧
    ∀ s ∈ step, ∃ c, s.check c (body.declare scopes) = []
  | doRounds _ _ body _ _ => ∃ c, body.check c scopes = []
  | arms _ _ _ as _ => ∃ c, as.check c scopes = []

theorem Inside.accepted {path : Place} {t t' : Task} (hin : t.Inside path t')
    (h : t.Accepted scopes) : t'.Accepted (t.stack scopes path) := by
  cases hin with
  | grouping | unary | assign | condition | left | callee | argument | yes | no | right | arguments
  | moreArguments | call | expression | print | ifCondition | elseCondition | subject | give
  | initializer | loopCondition | armCondition | doCondition => trivial
  | block | otherwise | nextRound | nextStep | doBody | doRound => exact h
  | doLoop =>
    obtain ⟨c, hcheck⟩ := h
    exact ⟨_, (List.append_eq_nil_iff.1 hcheck).1⟩
  | ifThen | arms =>
    obtain ⟨c, hcheck⟩ := h
    exact ⟨_, (List.append_eq_nil_iff.1 hcheck).2⟩
  | thenBranch | armBody =>
    obtain ⟨c, hcheck⟩ := h
    exact ⟨_, (List.append_eq_nil_iff.1 (List.append_eq_nil_iff.1 hcheck).1).2⟩
  | elseBranch | nextArm =>
    obtain ⟨c, hcheck⟩ := h
    exact ⟨_, (List.append_eq_nil_iff.1 hcheck).2⟩
  | loop =>
    obtain ⟨c, hcheck⟩ := h
    exact ⟨⟨_, (List.append_eq_nil_iff.1 hcheck).2⟩, by simp⟩
  | loopStep =>
    obtain ⟨c, hcheck⟩ := h
    obtain ⟨hboth, hstep⟩ := List.append_eq_nil_iff.1 hcheck
    refine ⟨⟨_, (List.append_eq_nil_iff.1 hboth).2⟩, fun s hs => ?_⟩
    obtain rfl := Option.mem_some.1 hs
    exact ⟨_, hstep⟩
  | first | topFirst =>
    obtain ⟨c, hcheck⟩ := h
    exact ⟨_, (List.append_eq_nil_iff.1 hcheck).1⟩
  | others | topOthers =>
    obtain ⟨c, hcheck⟩ := h
    exact ⟨_, (List.append_eq_nil_iff.1 hcheck).2⟩
  | loopBody => exact h.1
  | step => exact h.2 _ rfl

/-- The body of a function is checked with its declaration, in a function and in no loop. -/
theorem Makes.body_check {d : Task} {f : Closure} {m : Machine} (hmakes : d.Makes f m)
    (h : d.Accepted scopes) :
    Stmt.checkAll .function ((scopes.define f.name).enter f.params) f.body = [] := by
  cases hmakes with
  | intro =>
    obtain ⟨c, hcheck⟩ := h
    exact (List.append_eq_nil_iff.1 hcheck).2

end Task

/-- Every piece of the program that is run has been accepted. -/
theorem Located.accepted (hstart : ∀ p t, starts p t → t.Accepted []) {t : Task}
    (h : Located starts p scopes t) : t.Accepted scopes := by
  induction h with
  | start h => exact hstart _ _ h
  | inside _ _ hin ih => exact hin.accepted ih
  | body _ hbody _ hmakes _ _ ihd =>
    cases hbody with
    | intro => exact ⟨_, hmakes.body_check ihd⟩

theorem Session.Begins.declared {fuel : Nat} {host : Host} {program : List (Stmt Address)}
    {t : Task}
    (h : Session.Begins fuel host program p t) :
    t.Declared (Session.Begins fuel host program) := by
  cases h with
  | intro => exact ⟨Session.declared_new, trivial⟩

/-- A function whose body is run was declared in the program, so that nothing in the body jumps out
of it. -/
theorem Visited.body_confined {fuel : Nat} {host : Host} {program : List (Stmt Address)}
    (hcheck : check program = []) {t t' : Task} {f : Closure} {scope : Scope}
    (h : Visited (Session.Begins fuel host program) t) (hbody : t.Enters f scope t') (j : Jump) :
    Stmt.anyEscapes (.jump j) f.body = false := by
  obtain ⟨-, hdeclared⟩ := h.located fun _ _ => Session.Begins.declared
  obtain ⟨q, outer, d, m, hd, hmakes, -⟩ := (hbody.declared hdeclared).2 f rfl
  have haccepted : d.Accepted outer := hd.accepted fun p t hstart => by
    cases hstart with
    | intro => exact ⟨.top, hcheck⟩
  cases hx : Stmt.anyEscapes (.jump j) f.body with
  | false => rfl
  | true => cases Stmt.permitted_of_checkAll f.body (hmakes.body_check haccepted) hx

/-- In an accepted program, whatever its addresses: a statement at top level always ends normally,
if it ends without a failure; the body of a function ends normally or with a return; and no loop
ends with a jump. A statement ends with a jump only if it holds one that stands in no loop and no
function inside of it. -/
theorem Session.jumps_confined {program : List (Stmt Address)} (hcheck : check program = [])
    (fuel : Nat) (host : Host) :
    (∀ s ∈ program, ∀ n c m flow m', exec n c s m = .done flow m' → flow = .normal) ∧
    (∀ t f scope n c m, Visited (Begins fuel host program) t →
      t.Enters f scope (.stmts n c f.body m) → ∀ flow m', execAll n c f.body m = .done flow m' →
        flow = .normal ∨ ∃ v, flow = .give v) ∧
    (∀ s : Stmt Address, s.isLoop = true → ∀ n c m j m', exec n c s m ≠ .done (.jump j) m') ∧
    (∀ (s : Stmt Address) n c m j m', exec n c s m = .done (.jump j) m' →
      s.escapes (.jump j) = true) := by
  have hjump (s : Stmt Address) (n : Nat) (c : Context) (m : Machine) (j : Jump) (m' : Machine)
      (hdone : exec n c s m = .done (.jump j) m') : s.escapes (.jump j) = true :=
    (escapingEval n).exec c s m _ _ hdone _ rfl
  refine ⟨fun s hs n c m flow m' hdone => ?_, fun t f scope n c m ht hbody flow m' hdone => ?_,
    fun s hs n c m j m' hdone => ?_, hjump⟩
  · have hends := (escapingEval n).exec c s m flow m' hdone
    have hnone := not_escapes_of_check hcheck hs
    cases flow with
    | normal => rfl
    | jump j => simpa [hnone] using hends _ rfl
    | give v => simpa [hnone] using hends _ rfl
  · have hends := (escapingEval n).execAll c f.body m flow m' hdone
    cases flow with
    | normal => exact .inl rfl
    | give v => exact .inr ⟨v, rfl⟩
    | jump j => simpa [ht.body_confined hcheck hbody] using hends _ rfl
  · have hnot := s.not_escapes_of_isLoop hs j
    rw [hjump s n c m j m' hdone] at hnot
    cases hnot

/-- The jump in the function ends the loop there, and the function ends as if it were not there. -/
theorem Session.jumps_confined_call :
    let token (kind : Kind) (s : String) : Token := ⟨kind, s, .start⟩
    let body : List (Stmt Address) :=
      [.loop (.literal (.bool true)) (.jump .exit (token .kwBreak "break"))]
    let host : Host := .still 99 0
    let program : List (Stmt Address) := [.function (token .identifier "f") [] body,
      .expression (.call (.reference (token .identifier "f") .global) (token .rightParen ")") [])]
    check program = [] ∧ ∃ t f scope n c m flow m', Visited (Begins 9 host program) t ∧
      t.Enters f scope (.stmts n c f.body m) ∧ f.body = body ∧
      execAll n c f.body m = .done flow m' ∧ (flow = .normal ∨ ∃ v, flow = .give v) := by
  intro token body host program
  have hcheck : check program = [] := rfl
  have hstart : Visited (Begins 9 host program) (.program 9 (context host) program new.machine) :=
    .start .intro
  have hexpression := ((hstart.inside rfl (.topOthers rfl)).inside rfl .topFirst).inside rfl
    .expression
  have hcall := hexpression.inside rfl (.call rfl rfl rfl)
  refine ⟨hcheck, _, _, _, _, _, _, .normal, _, hcall, .intro rfl rfl rfl, rfl, rfl, ?_⟩
  exact (jumps_confined hcheck 9 host).2.1 _ _ _ _ _ _ hcall (.intro rfl rfl rfl) _ _ rfl

end Scriptlet

import Scriptlet.Proofs.Scoping.Declared
import Scriptlet.Proofs.Scoping.Environment
import Scriptlet.Proofs.Scoping.Placed

/-! Wherever an evaluation takes place, the scopes at run time are those its piece of the program
was resolved for. -/
namespace Scriptlet

variable {starts : Place → Task → Prop} {scopes : Scopes} {p : Place}

/-- A statement that is not listed adds nothing to the frame of its scope. -/
theorem Stmt.Scoped.declares_eq {s : Stmt Address} (h : s.Scoped scopes false) :
    s.declares = false := h.placed.declares_eq

namespace Env

variable {n : Nat} {scope : Scope} {c : Context} {m m' : Machine}

theorem eval {e : Expr Address} {v : Value} (h : Env starts p scopes scope m.store)
    (hdone : eval n c e m = .done v m') : Env starts p scopes scope m'.store := by
  have hkeeps := (keepingEval n).eval (fun _ => False) c e m
  rw [hdone] at hkeeps
  exact h.keeps hkeeps

theorem evalAll {es : List (Expr Address)} {vs : List Value}
    (h : Env starts p scopes scope m.store) (hdone : evalAll n c es m = .done vs m') :
    Env starts p scopes scope m'.store := by
  have hkeeps := (keepingEval n).evalAll (fun _ => False) c es m
  rw [hdone] at hkeeps
  exact h.keeps hkeeps

theorem exec {s : Stmt Address} {flow : Flow} (h : Env starts p scopes scope m.store)
    (hs : s.declares = false) (hdone : exec n c s m = .done flow m') :
    Env starts p scopes scope m'.store := by
  have hkeeps : (Scriptlet.exec n c s m).Keeps (fun _ => False) m.store :=
    (keepingEval n).exec m (by simp [hs])
  rw [hdone] at hkeeps
  exact h.keeps hkeeps

theorem define_done (h : Env starts p scopes c.scope m.store) (hp : p.initialized? = none)
    {name : Token} {v : Value} {flow : Flow}
    (hdone : ((m.define c.scope name v).bind fun _ m => Outcome.done Flow.normal m) =
      .done flow m') : Env starts p (scopes.define name) c.scope m'.store := by
  unfold Machine.define at hdone
  cases hs : m.store.define c.scope name v with
  | error why => simp [hs, Machine.update] at hdone
  | ok s =>
    rw [hs] at hdone
    obtain ⟨-, rfl⟩ := Store.define_eq_ok.1 hs
    obtain ⟨-, rfl⟩ := Outcome.done.inj hdone
    exact h.define hp name v

/-- After a statement of a list the names are those that the next one was resolved for. -/
theorem listed {s : Stmt Address} {flow : Flow} (h : Env starts p scopes c.scope m.store)
    (hp : p.initialized? = none) (hs : s.Scoped scopes true)
    (hdone : Scriptlet.exec n c s m = .done flow m') :
    Env starts p (s.declare scopes) c.scope m'.store := by
  have hplain (hs : s.Scoped scopes false) : Env starts p (s.declare scopes) c.scope m'.store := by
    rw [Stmt.declare_of_declares hs.declares_eq]
    exact h.exec hs.declares_eq hdone
  cases n with
  | zero => cases hdone
  | succ n =>
    cases s with
    | function name params body =>
      rw [Scriptlet.exec] at hdone
      have hdone := (Context.guard_eq_done hdone).2
      exact define_done (m := { m with closures := m.closures + 1 }) h hp hdone
    | var name init =>
      rw [Scriptlet.exec] at hdone
      have hdone := (Context.guard_eq_done hdone).2
      cases init with
      | none => exact define_done h hp hdone
      | some e =>
        cases he : Scriptlet.eval n c.deeper e m with
        | done v m₁ =>
          simp only [he, Outcome.bind_done] at hdone
          exact define_done (h.eval he) hp hdone
        | stopped | outOfFuel => simp [he] at hdone
    | _ => exact hplain hs

end Env

namespace Task

def scope : Task → Scope
  | expr _ c _ _ | exprs _ c _ _ | call _ c _ _ _ _ | stmt _ c _ _ | stmts _ c _ _
  | rounds _ c _ _ _ _ | doRounds _ c _ _ _ | arms _ c _ _ _ | program _ c _ _ => c.scope

def isStatement : Task → Bool
  | expr .. | exprs .. | call .. => false
  | stmt .. | stmts .. | rounds .. | doRounds .. | arms .. | program .. => true

/-- The piece of the program has been resolved for these scopes. Calls bring their own ones. -/
def Scoped (scopes : Scopes) : Task → Prop
  | expr _ _ e _ => e.Scoped scopes
  | exprs _ _ es _ => Expr.AllScoped scopes es
  | call .. => True
  | stmt _ _ s _ => s.Scoped scopes true
  | stmts _ _ ss _ | program _ _ ss _ => Stmt.AllScoped scopes ss
  | rounds _ _ condition body step _ =>
    condition.Scoped scopes ∧ body.Scoped scopes false ∧ ∀ s ∈ step, s.Scoped scopes false
  | doRounds _ _ body condition _ => body.Scoped scopes false ∧ condition.Scoped scopes
  | arms _ _ _ as _ => as.Scoped scopes

/-- The evaluation finds the scopes at run time as the resolver saw them. -/
structure Fits (starts : Place → Task → Prop) (p : Place) (scopes : Scopes) (t : Task) : Prop where
  env : Env starts p scopes t.scope t.machine.store
  resolved : t.Scoped scopes
  outside : t.isStatement = true → p.initialized? = none

/-- What is evaluated inside fits if the whole does. -/
theorem Inside.fits {path : Place} {t t' : Task} (hroom : t.overflow? = none)
    (hin : t.Inside path t') (hloc : Located starts p scopes t) (h : t.Fits starts p scopes) :
    t'.Fits starts (path ++ p) (t.stack scopes path) := by
  obtain ⟨henv, hs, hp⟩ := h
  cases hin with
  | grouping | unary => exact ⟨henv.child 0, hs, nofun⟩
  | assign => exact ⟨henv.child 0, hs.2, nofun⟩
  | condition | left | callee | argument => exact ⟨henv.child 0, hs.1, nofun⟩
  | yes hcondition => exact ⟨(henv.eval hcondition).child 1, hs.2.1, nofun⟩
  | no hcondition => exact ⟨(henv.eval hcondition).child 2, hs.2.2, nofun⟩
  | right hleft | arguments hleft | moreArguments hleft =>
    exact ⟨(henv.eval hleft).child 1, hs.2, nofun⟩
  | call hcallee hf harguments =>
    exact ⟨(henv.eval hcallee).evalAll harguments, trivial, nofun⟩
  | block =>
    exact ⟨Env.enter (henv.covers (hp rfl)) henv.trail henv.length rfl rfl (.block hloc hroom), hs,
      fun _ => rfl⟩
  | doLoop => exact ⟨henv, hs, hp⟩
  | expression | print => exact ⟨henv.child 0, hs, nofun⟩
  | ifCondition | elseCondition | subject | loopCondition | armCondition =>
    exact ⟨henv.child 0, hs.1, nofun⟩
  | ifThen hcondition => exact ⟨(henv.eval hcondition).child 1, hs.2.listed, hp⟩
  | thenBranch hcondition | armBody hcondition =>
    exact ⟨(henv.eval hcondition).child 1, hs.2.1.listed, hp⟩
  | elseBranch hcondition =>
    have hstack := Stmt.declare_of_declares hs.2.1.declares_eq scopes
    simp only [Task.stack, hstack]
    exact ⟨(henv.eval hcondition).child 2, hs.2.2.listed, hp⟩
  | nextArm hcondition =>
    have hstack := Stmt.declare_of_declares hs.2.1.declares_eq scopes
    simp only [Task.stack, hstack]
    exact ⟨(henv.eval hcondition).child 2, hs.2.2, hp⟩
  | give => exact ⟨henv.child 0, hs _ rfl, nofun⟩
  | arms hsubject => exact ⟨(henv.eval hsubject).child 1, hs.2, hp⟩
  | initializer => exact ⟨henv.initializer (hp rfl) hs.2.1, hs.2.2 _ rfl, nofun⟩
  | loop => exact ⟨henv, ⟨hs.1, hs.2, by simp⟩, hp⟩
  | loopStep => exact ⟨henv, ⟨hs.1, hs.2.1, fun _ hstep => Option.mem_some.1 hstep ▸ hs.2.2⟩, hp⟩
  | first | topFirst => exact ⟨henv.child 0, hs.1, hp⟩
  | others hfirst | topOthers hfirst =>
    exact ⟨(henv.listed (hp rfl) hs.1 hfirst).child 1, hs.2, hp⟩
  | loopBody hcondition => exact ⟨(henv.eval hcondition).child 1, hs.2.1.listed, hp⟩
  | step hcondition hv hbody =>
    have hafter := (henv.eval hcondition).exec hs.2.1.declares_eq hbody
    have hstack := Stmt.declare_of_declares hs.2.1.declares_eq scopes
    simp only [Task.stack, hstack]
    exact ⟨hafter.child 2, (hs.2.2 _ rfl).listed, hp⟩
  | nextRound hcondition hv hbody =>
    exact ⟨(henv.eval hcondition).exec hs.2.1.declares_eq hbody, hs, hp⟩
  | nextStep hcondition hv hbody hflow hstep =>
    have hafter := (henv.eval hcondition).exec hs.2.1.declares_eq hbody
    exact ⟨hafter.exec (hs.2.2 _ rfl).declares_eq hstep, hs, hp⟩
  | doBody => exact ⟨henv.child 0, hs.1.listed, hp⟩
  | doCondition hbody =>
    have hstack := Stmt.declare_of_declares hs.1.declares_eq scopes
    simp only [Task.stack, hstack]
    exact ⟨(henv.exec hs.1.declares_eq hbody).child 1, hs.2, nofun⟩
  | doRound hbody hflow hcondition =>
    exact ⟨(henv.exec hs.1.declares_eq hbody).eval hcondition, hs, hp⟩
  | otherwise => exact ⟨henv.child 0, hs.listed, hp⟩

/-- The body of a closure fits when it is called, since its declaration did and nothing that was
bound then is unbound now. -/
theorem Enters.fits {q : Place} {outer : Scopes} {t t' d : Task} {f : Closure} {scope : Scope}
    {m : Machine} (hbody : t.Enters f scope t') (hloc : Located starts p scopes t)
    (hd : Located starts q outer d) (hmakes : d.Makes f m)
    (hbefore : m.store.Before t.machine.store) (h : d.Fits starts q outer) :
    t'.Fits starts (.body :: q) ((outer.define f.name).enter f.params) := by
  have hcreated := Created.body hloc hbody hd hmakes hbefore
  cases hmakes with
  | intro hscope hserial hdone =>
    obtain ⟨henv, hs, hq⟩ := h
    have hafter := henv.listed (hq rfl) hs hdone
    cases hbody with
    | intro harity hroom hparams =>
      rw [hscope] at hparams hcreated ⊢
      have henter := Env.enter ((hafter.covers (hq rfl)).mono hbefore) hafter.trail hafter.length
        rfl rfl hcreated
      refine ⟨⟨henter.trail, ?_, henter.names.defineAll harity hparams, ?_⟩, hs.2.2.2,
        fun _ => rfl⟩
      · rw [Scopes.enter, length_defineAll]
        exact henter.length
      · exact henter.pending.defineAll _

end Task

/-- Every evaluation fits if those that are started do. -/
theorem Located.fits (hstart : ∀ p t, starts p t → t.Fits starts p []) {t : Task}
    (h : Located starts p scopes t) : t.Fits starts p scopes := by
  induction h with
  | start h => exact hstart _ _ h
  | inside h hroom hin ih => exact hin.fits hroom h ih
  | body h hbody hd hmakes hbefore _ ihd => exact hbody.fits h hd hmakes hbefore ihd

end Scriptlet

import Scriptlet.Proofs.Evaluation.Stops

/-! A fault that ends an evaluation was raised by one of the evaluations inside: by an access that
leads nowhere, or by an operator. -/
namespace Scriptlet

variable {α : Type} {f : Fault} {m : Machine}

namespace Outcome

/-- The fault that the step ended with, if it did. -/
def fault? : Outcome α → Option Fault
  | stopped (.fault f) _ => some f
  | _ => none

end Outcome

open Outcome

namespace Store

variable {s : Store α} {scope : Scope} {name : Token} {value : α}

theorem getHere_ne_fault : s.getHere scope name ≠ .error (.fault f) := by
  unfold getHere
  split <;> nofun

theorem assignHere_ne_fault : s.assignHere scope name value ≠ .error (.fault f) := by
  unfold assignHere
  split <;> nofun

theorem define_ne_fault : s.define scope name value ≠ .error (.fault f) := by
  unfold define
  split <;> nofun

theorem get_ne_fault : s.get scope name ≠ .error (.fault f) := by
  unfold get
  split
  · exact getHere_ne_fault
  · nofun

theorem assign_ne_fault : s.assign scope name value ≠ .error (.fault f) := by
  unfold assign
  split
  · exact assignHere_ne_fault
  · nofun

theorem getAt_eq_fault {d : Int} (h : s.getAt scope d name = .error (.fault f)) :
    ∃ e, scope.ancestor d = .error e ∧ f = .distance e := by
  unfold getAt at h
  cases ha : scope.ancestor d with
  | ok owner =>
    rw [ha] at h
    exact absurd h getHere_ne_fault
  | error e =>
    rw [ha] at h
    cases h
    exact ⟨e, rfl, rfl⟩

theorem assignAt_eq_fault {d : Int} (h : s.assignAt scope d name value = .error (.fault f)) :
    ∃ e, scope.ancestor d = .error e ∧ f = .distance e := by
  unfold assignAt at h
  cases ha : scope.ancestor d with
  | ok owner =>
    rw [ha] at h
    exact absurd h assignHere_ne_fault
  | error e =>
    rw [ha] at h
    cases h
    exact ⟨e, rfl, rfl⟩

end Store

/-- Declaring a variable never ends with a fault. -/
theorem Machine.define_ne_fault {scope : Scope} {name : Token} {v : Value} :
    (m.define scope name v).stop? ≠ some (.fault f) := fun h =>
  Store.define_ne_fault (Machine.stop_update h)

theorem Machine.defineAll_ne_fault {scope : Scope} (ps : List Token) (vs : List Value)
    (m : Machine) : (Machine.defineAll scope ps vs m).stop? ≠ some (.fault f) := by
  induction ps generalizing vs m with
  | nil => nofun
  | cons p ps ih =>
    cases vs with
    | nil => nofun
    | cons v vs =>
      intro h
      rcases stop_bind h with h | ⟨_, m', _, h⟩
      · exact Machine.define_ne_fault h
      · exact ih vs m' h

namespace Task

/-- The fault that the evaluation ends with, if it does. -/
def fault? : Task → Option Fault
  | expr n c e m => (eval n c e m).fault?
  | exprs n c es m => (evalAll n c es m).fault?
  | call n c paren f vs m => (Scriptlet.call n c paren f vs m).fault?
  | stmt n c s m => (exec n c s m).fault?
  | stmts n c ss m => (execAll n c ss m).fault?
  | rounds n c condition body step m => (execLoop n c condition body step m).fault?
  | doRounds n c body condition m => (execDo n c body condition m).fault?
  | arms n c subject as m => (execArms n c subject as m).fault?
  | program n c ss m => (execEach n c ss m).fault?

/-- The evaluation itself runs into the fault, when those inside are done. -/
inductive Raises : Task → Fault → Prop where
  | read {n : Nat} {c : Context} {name : Token} {d : Int} {m : Machine} {e : DistanceError}
    (hroom : c.deeper.stack.overflow? = none)
    (hscope : c.scope.ancestor d = .error e) :
    Raises (.expr (n + 1) c (.reference name (.up d)) m) (.distance e)
  | write {n : Nat} {c : Context} {name : Token} {value : Expr Address} {d : Int} {m m' : Machine}
    {v : Value} {e : DistanceError} (hroom : c.deeper.stack.overflow? = none)
    (hvalue : eval n c.deeper value m = .done v m')
    (hscope : c.scope.ancestor d = .error e) :
    Raises (.expr (n + 1) c (.assign name value (.up d)) m) (.distance e)
  | unary {n : Nat} {c : Context} {operator : Token} {right : Expr Address} {m m' : Machine}
    {v : Value} {f : Fault} (hroom : c.deeper.stack.overflow? = none)
    (hright : eval n c.deeper right m = .done v m')
    (hfault : Scriptlet.unary operator v = .error (.fault f)) :
    Raises (.expr (n + 1) c (.unary operator right) m) f
  | binary {n : Nat} {c : Context} {operator : Token} {left right : Expr Address}
    {m m' m'' : Machine} {l r : Value} {f : Fault} (hroom : c.deeper.stack.overflow? = none)
    (hand : operator.kind ≠ .and)
    (hor : operator.kind ≠ .or) (hleft : eval n c.deeper left m = .done l m')
    (hright : eval n c.deeper right m' = .done r m'')
    (hfault : Scriptlet.binary operator l r = .error (.fault f)) :
    Raises (.expr (n + 1) c (.binary left operator right) m) f

theorem Raises.fault_eq {t : Task} (h : t.Raises f) : t.fault? = some f := by
  cases h with
  | read hroom hscope =>
    simp [fault?, eval, Context.guard_of_room hroom, Machine.read, Store.getAt, hscope,
      Outcome.ofExcept, Outcome.fault?]
  | write hroom hvalue hscope =>
    simp [fault?, eval, Context.guard_of_room hroom, hvalue, Machine.write, Store.assignAt, hscope,
      Machine.update, Outcome.fault?]
  | unary hroom hright hfault =>
    simp [fault?, eval, Context.guard_of_room hroom, hright, hfault, Outcome.ofExcept,
      Outcome.fault?]
  | binary hroom hand hor hleft hright hfault =>
    simp [fault?, eval, Context.guard_of_room hroom, hleft, hright, hfault, Outcome.ofExcept,
      Outcome.fault?]

/-- What stops with a fault has raised it. -/
theorem Stops.raises {t : Task} (h : t.Stops (.fault f)) : t.Raises f := by
  cases h with
  | @read n c name address m _ hroom hread =>
    cases address with
    | global => exact absurd (stop_ofExcept (m := m) hread) Store.get_ne_fault
    | up d =>
      obtain ⟨e, hscope, rfl⟩ := Store.getAt_eq_fault (stop_ofExcept (m := m) hread)
      exact .read hroom hscope
  | @write n c name value address m m' v _ hroom hvalue hwrite =>
    cases address with
    | global => exact absurd (Machine.stop_update hwrite) Store.assign_ne_fault
    | up d =>
      obtain ⟨e, hscope, rfl⟩ := Store.assignAt_eq_fault (Machine.stop_update hwrite)
      exact .write hroom hvalue hscope
  | unary hroom hright hwhy => exact .unary hroom hright hwhy
  | binary hroom hand hor hleft hright hwhy =>
    exact .binary hroom hand hor hleft hright hwhy
  | parameter _ _ hparams => exact absurd hparams (Machine.defineAll_ne_fault _ _ _)
  | function _ hdefine | var _ hdefine | initialized _ _ hdefine =>
    exact absurd hdefine Machine.define_ne_fault

end Task

end Scriptlet

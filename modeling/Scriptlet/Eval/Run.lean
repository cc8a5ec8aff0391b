import Scriptlet.Eval.Machine
import Scriptlet.Eval.Operator

/-! Evaluation. The first argument bounds how deep the rules are applied, rounds of a loop included;
any bound that suffices gives the same result. The scope is an argument, so what a statement does in
a scope of its own never shows in the scope of the next one. -/
namespace Scriptlet

/-- What a native function returns when the clock shows this time; the number of arguments has been
checked. -/
def Native.apply (now : Int) : Native → List Value → Value
  | .clock, _ => .number (Float.ofInt (now.fdiv 1000000))
  | .typeof, v :: _ => .string v.typeName.text
  | .typeof, [] => .nil

/-- Every look at the clock is another reading. -/
def Native.after : Native → Machine → Machine
  | .clock, m => { m with readings := m.readings + 1 }
  | .typeof, m => m

namespace Native

@[simp] theorem store_after (f : Native) (m : Machine) : (f.after m).store = m.store := by
  cases f <;> rfl

@[simp] theorem closures_after (f : Native) (m : Machine) : (f.after m).closures = m.closures := by
  cases f <;> rfl

@[simp] theorem printed_after (f : Native) (m : Machine) : (f.after m).printed = m.printed := by
  cases f <;> rfl

end Native

/-- A value that can be called. -/
inductive Callee where
  | native (f : Native)
  | closure (f : Closure)

namespace Callee

def ofValue? : Value → Option Callee
  | .native f => some (native f)
  | .closure f => some (closure f)
  | _ => none

def arity : Callee → Nat
  | native f => f.arity
  | closure f => f.params.length

end Callee

/-- The value of a call whose body has ended. -/
def Flow.result : Flow → Value
  | .give v => v
  | _ => .nil

mutual

def eval : Nat → Context → Expr Address → Machine → Outcome Value
  | 0, _, _, m => .outOfFuel m
  | n + 1, c, e, m => c.deeper.guard m fun c =>
    match e with
    | .literal value => .done value.value m
    | .reference name address => m.read c name address
    | .grouping inner => eval n c inner m
    | .assign name value address =>
      (eval n c value m).bind fun v m => m.write c name v address
    | .unary operator right =>
      (eval n c right m).bind fun v m => .ofExcept m (unary operator v)
    | .conditional condition thenBranch elseBranch =>
      (eval n c condition m).bind fun v m =>
        if v.isTruthy then eval n c thenBranch m else eval n c elseBranch m
    | .binary left operator right =>
      (eval n c left m).bind fun l m =>
        match operator.kind with
        | .and => if l.isTruthy then eval n c right m else .done l m
        | .or => if l.isTruthy then .done l m else eval n c right m
        | _ => (eval n c right m).bind fun r m => .ofExcept m (binary operator l r)
    | .call callee paren arguments =>
      (eval n c callee m).bind fun f m =>
        match Callee.ofValue? f with
        | none => .stopped (.error ⟨paren, .notCallable⟩) m
        | some f => (evalAll n c arguments m).bind fun vs m => call n c paren f vs m

/-- From left to right. -/
def evalAll : Nat → Context → List (Expr Address) → Machine → Outcome (List Value)
  | 0, _, _, m => .outOfFuel m
  | _ + 1, _, [], m => .done [] m
  | n + 1, c, e :: es, m =>
    (eval n c e m).bind fun v m => (evalAll n c es m).bind fun vs m => .done (v :: vs) m

/-- The body of a closure runs in a new scope inside the one of its declaration. -/
def call : Nat → Context → Token → Callee → List Value → Machine → Outcome Value
  | 0, _, _, _, _, m => .outOfFuel m
  | n + 1, c, paren, callee, vs, m =>
    if vs.length ≠ callee.arity then
      .stopped (.error ⟨paren, .argumentCount callee.arity vs.length⟩) m
    else (c.calling paren).guard m fun c =>
      match callee with
      | .native f => .done (f.apply (c.stack.host.clock m.readings) vs) (f.after m)
      | .closure f =>
        let (scope, m) := m.enter f.scope
        (Machine.defineAll scope f.params vs m).bind fun _ m =>
          (execAll n (c.entering scope) f.body m).bind fun flow m => .done flow.result m

def exec : Nat → Context → Stmt Address → Machine → Outcome Flow
  | 0, _, _, m => .outOfFuel m
  | n + 1, c, s, m => c.deeper.guard m fun c =>
    match s with
    | .block body =>
      let (scope, m) := m.enter c.scope
      execAll n (c.inside scope) body m
    | .jump j _ => .done (.jump j) m
    | .doLoop body condition => execDo n c body condition m
    | .expression value => (eval n c value m).bind fun _ m => .done .normal m
    | .function name params body =>
      let f : Closure := ⟨m.closures, name, params, body, c.scope⟩
      ({ m with closures := m.closures + 1 }.define c.scope name (.closure f)).bind fun _ m =>
        .done .normal m
    | .ifThen condition thenBranch =>
      (eval n c condition m).bind fun v m =>
        if v.isTruthy then exec n c thenBranch m else .done .normal m
    | .ifElse condition thenBranch elseBranch =>
      (eval n c condition m).bind fun v m =>
        if v.isTruthy then exec n c thenBranch m else exec n c elseBranch m
    | .print value => (eval n c value m).bind fun v m => .done .normal (m.print v)
    | .give _ none => .done (.give .nil) m
    | .give _ (some value) => (eval n c value m).bind fun v m => .done (.give v) m
    | .switch subject arms =>
      (eval n c subject m).bind fun v m => execArms n c v arms m
    | .var name none => (m.define c.scope name .nil).bind fun _ m => .done .normal m
    | .var name (some init) =>
      (eval n c init m).bind fun v m =>
        (m.define c.scope name v).bind fun _ m => .done .normal m
    | .loop condition body => execLoop n c condition body none m
    | .loopStep condition body step => execLoop n c condition body (some step) m

/-- Up to the first statement that does not end normally. -/
def execAll : Nat → Context → List (Stmt Address) → Machine → Outcome Flow
  | 0, _, _, m => .outOfFuel m
  | _ + 1, _, [], m => .done .normal m
  | n + 1, c, s :: ss, m =>
    (exec n c s m).bind fun flow m =>
      match flow with
      | .normal => execAll n c ss m
      | flow => .done flow m

/-- How the step ends does not matter, unless it fails. -/
def execLoop : Nat → Context → Expr Address → Stmt Address → Option (Stmt Address) → Machine →
    Outcome Flow
  | 0, _, _, _, _, m => .outOfFuel m
  | n + 1, c, condition, body, step, m =>
    (eval n c condition m).bind fun v m =>
      if v.isTruthy then
        (exec n c body m).bind fun flow m =>
          match flow with
          | .jump .exit => .done .normal m
          | .give v => .done (.give v) m
          | .normal | .jump .again =>
            match step with
            | none => execLoop n c condition body step m
            | some s => (exec n c s m).bind fun _ m => execLoop n c condition body step m
      else .done .normal m

def execDo : Nat → Context → Stmt Address → Expr Address → Machine → Outcome Flow
  | 0, _, _, _, m => .outOfFuel m
  | n + 1, c, body, condition, m =>
    (exec n c body m).bind fun flow m =>
      match flow with
      | .jump .exit => .done .normal m
      | .give v => .done (.give v) m
      | .normal | .jump .again =>
        (eval n c condition m).bind fun v m =>
          if v.isTruthy then execDo n c body condition m else .done .normal m

/-- The body of the first case equal to the subject; cases after it are not evaluated. -/
def execArms : Nat → Context → Value → Arms Address → Machine → Outcome Flow
  | 0, _, _, _, m => .outOfFuel m
  | _ + 1, _, _, .done, m => .done .normal m
  | n + 1, c, _, .otherwise body, m => exec n c body m
  | n + 1, c, subject, .case condition body rest, m =>
    (eval n c condition m).bind fun v m =>
      if v.isEqual subject then exec n c body m else execArms n c subject rest m

end

end Scriptlet

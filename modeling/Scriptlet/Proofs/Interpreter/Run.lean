import Scriptlet.Proofs.Interpreter.Steps

/-! Evaluation by steps of the interpreter. -/
namespace Scriptlet

namespace Interpreter

def find (s : Interpreter) (name : Token) : Address → Except Stop Value
  | .global => s.machine.store.get s.globals name
  | .up d => s.machine.store.getAt s.scope d name

def assign (s : Interpreter) (name : Token) (v : Value) : Address → Except Stop (Store Value)
  | .global => s.machine.store.assign s.globals name v
  | .up d => s.machine.store.assignAt s.scope d name v

theorem keeps_assign {s : Interpreter} {name : Token} {v : Value} {address : Address}
    {store : Store Value} (h : s.assign name v address = .ok store) :
    s.machine.store.Keeps (fun _ => True) store := by
  cases address with
  | global => exact Scriptlet.keeps_assign h
  | up d => exact keeps_assignAt h

end Interpreter

namespace Step

variable {α : Type}

def ofExcept (e : Except Stop α) : Step α :=
  lift (fun s => .ofExcept s.machine e) fun _ => Machine.quiet_ofExcept _ _

def read (name : Token) (address : Address) : Step Value :=
  lift (fun s => .ofExcept s.machine (s.find name address)) fun _ => Machine.quiet_ofExcept _ _

/-- The value of an assignment is the value assigned. -/
def write (name : Token) (v : Value) (address : Address) : Step Value :=
  lift (fun s => s.machine.update v (s.assign name v address))
    fun _ => Machine.quiet_update (keeps_update fun _ => Interpreter.keeps_assign)

/-- A variable of the current scope. -/
def define (name : Token) (v : Value) : Step Unit :=
  lift (fun s => s.machine.define s.scope name v) fun _ => Machine.quiet_define _ _ _ _

/-- A function of the current scope. -/
def function (name : Token) (params : List Token) (body : List (Stmt Address)) : Step Unit :=
  lift (fun s => { s.machine with closures := s.machine.closures + 1 }.define s.scope name
    (.closure ⟨s.machine.closures, name, params, body, s.scope⟩))
    fun _ => Machine.quiet_define _ _ _ _

/-- A native function reads the clock of the host. -/
def native (k : Stack) (f : Native) (vs : List Value) : Step Value :=
  lift (fun s => .done (f.apply (k.host.clock s.machine.readings) vs) (f.after s.machine))
    fun s => ⟨f.store_after s.machine ▸ Store.Keeps.refl _ _, f.printed_after s.machine⟩

/-- Variables of a scope that need not be the current one. -/
def defineAll (scope : Scope) (ps : List Token) (vs : List Value) : Step Unit :=
  lift (fun s => Machine.defineAll scope ps vs s.machine) fun _ => Machine.quiet_defineAll _ _ _ _

/-- A step for which there have to be enough frames. -/
def guard (k : Stack) (f : Stack → Step α) : Step α :=
  match k.overflow? with
  | some paren => stop (.error ⟨paren, .stackOverflow⟩)
  | none => f k

end Step

namespace Interpreter

open Step

mutual

def eval : Nat → Stack → Expr Address → Step Value
  | 0, _, _ => cut
  | n + 1, k, e => guard (k.take treeFrames) fun k =>
    match e with
    | .literal value => pure value.value
    | .reference name address => read name address
    | .grouping inner => eval n k inner
    | .assign name value address =>
      (eval n k value).bind fun v => write name v address
    | .unary operator right =>
      (eval n k right).bind fun v => ofExcept (unary operator v)
    | .conditional condition thenBranch elseBranch =>
      (eval n k condition).bind fun v =>
        if v.isTruthy then eval n k thenBranch else eval n k elseBranch
    | .binary left operator right =>
      (eval n k left).bind fun l =>
        match operator.kind with
        | .and => if l.isTruthy then eval n k right else pure l
        | .or => if l.isTruthy then pure l else eval n k right
        | _ => (eval n k right).bind fun r => ofExcept (binary operator l r)
    | .call callee paren arguments =>
      (eval n k callee).bind fun f =>
        match Callee.ofValue? f with
        | none => stop (.error ⟨paren, .notCallable⟩)
        | some f => (evalAll n k arguments).bind fun vs => call n k paren f vs
termination_by structural n => n

def evalAll : Nat → Stack → List (Expr Address) → Step (List Value)
  | 0, _, _ => cut
  | _ + 1, _, [] => pure []
  | n + 1, k, e :: es =>
    (eval n k e).bind fun v => (evalAll n k es).bind fun vs => pure (v :: vs)
termination_by structural n => n

/-- The scope of a call has its parameters before the interpreter goes there. -/
def call : Nat → Stack → Token → Callee → List Value → Step Value
  | 0, _, _, _, _ => cut
  | n + 1, k, paren, callee, vs =>
    if vs.length ≠ callee.arity then
      stop (.error ⟨paren, .argumentCount callee.arity vs.length⟩)
    else guard (k.enter callFrames paren) fun k =>
      match callee with
      | .native f => native k f vs
      | .closure f =>
        (new f.scope).bind fun scope =>
          (defineAll scope f.params vs).bind fun _ =>
            (within scope (execAll n k f.body)).bind fun flow => pure flow.result
termination_by structural n => n

def exec : Nat → Stack → Stmt Address → Step Flow
  | 0, _, _ => cut
  | n + 1, k, st => guard (k.take treeFrames) fun k =>
    match st with
    | .block body =>
      Step.scope.bind fun outer =>
        (new outer).bind fun inner => within inner (execAll n (k.take blockFrames) body)
    | .jump j _ => pure (.jump j)
    | .doLoop body condition => execDo n k body condition
    | .expression value => (eval n k value).bind fun _ => pure .normal
    | .function name params body =>
      (function name params body).bind fun _ => pure .normal
    | .ifThen condition thenBranch =>
      (eval n k condition).bind fun v =>
        if v.isTruthy then exec n k thenBranch else pure .normal
    | .ifElse condition thenBranch elseBranch =>
      (eval n k condition).bind fun v =>
        if v.isTruthy then exec n k thenBranch else exec n k elseBranch
    | .print value =>
      (eval n k value).bind fun v => (print v).bind fun _ => pure .normal
    | .give _ none => pure (.give .nil)
    | .give _ (some value) =>
      (eval n k value).bind fun v => pure (.give v)
    | .switch subject arms =>
      (eval n k subject).bind fun v => execArms n k v arms
    | .var name none => (define name .nil).bind fun _ => pure .normal
    | .var name (some init) =>
      (eval n k init).bind fun v => (define name v).bind fun _ => pure .normal
    | .loop condition body => execLoop n k condition body none
    | .loopStep condition body step =>
      execLoop n k condition body (some step)
termination_by structural n => n

def execAll : Nat → Stack → List (Stmt Address) → Step Flow
  | 0, _, _ => cut
  | _ + 1, _, [] => pure .normal
  | n + 1, k, s :: ss =>
    (exec n k s).bind fun flow =>
      match flow with
      | .normal => execAll n k ss
      | flow => pure flow
termination_by structural n => n

def execLoop : Nat → Stack → Expr Address → Stmt Address → Option (Stmt Address) → Step Flow
  | 0, _, _, _, _ => cut
  | n + 1, k, condition, body, step =>
    (eval n k condition).bind fun v =>
      if v.isTruthy then
        (exec n k body).bind fun flow =>
          match flow with
          | .jump .exit => pure .normal
          | .give v => pure (.give v)
          | .normal | .jump .again =>
            match step with
            | none => execLoop n k condition body step
            | some s =>
              (exec n k s).bind fun _ => execLoop n k condition body step
      else pure .normal
termination_by structural n => n

def execDo : Nat → Stack → Stmt Address → Expr Address → Step Flow
  | 0, _, _, _ => cut
  | n + 1, k, body, condition =>
    (exec n k body).bind fun flow =>
      match flow with
      | .jump .exit => pure .normal
      | .give v => pure (.give v)
      | .normal | .jump .again =>
        (eval n k condition).bind fun v =>
          if v.isTruthy then execDo n k body condition else pure .normal
termination_by structural n => n

def execArms : Nat → Stack → Value → Arms Address → Step Flow
  | 0, _, _, _ => cut
  | _ + 1, _, _, .done => pure .normal
  | n + 1, k, _, .otherwise body => exec n k body
  | n + 1, k, subject, .case condition body rest =>
    (eval n k condition).bind fun v =>
      if v.isEqual subject then exec n k body else execArms n k subject rest
termination_by structural n => n

end

/-- Statement by statement, as at top level. -/
def execEach (n : Nat) (k : Stack) : List (Stmt Address) → Step Unit
  | [] => pure ()
  | s :: ss => (exec n k s).bind fun _ => execEach n k ss

end Interpreter
end Scriptlet

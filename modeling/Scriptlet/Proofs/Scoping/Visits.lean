import Scriptlet.Proofs.Evaluation.Keeps

/-! The evaluations that take place in the course of an evaluation, and where in the program each of
them belongs. -/
namespace Scriptlet

/-- An evaluation: one of the functions of the evaluator with all its arguments. -/
inductive Task where
  | expr (n : Nat) (c : Context) (e : Expr Address) (m : Machine)
  | exprs (n : Nat) (c : Context) (es : List (Expr Address)) (m : Machine)
  | call (n : Nat) (c : Context) (paren : Token) (f : Callee) (vs : List Value) (m : Machine)
  | stmt (n : Nat) (c : Context) (s : Stmt Address) (m : Machine)
  | stmts (n : Nat) (c : Context) (ss : List (Stmt Address)) (m : Machine)
  | rounds (n : Nat) (c : Context) (condition : Expr Address) (body : Stmt Address)
    (step : Option (Stmt Address)) (m : Machine)
  | doRounds (n : Nat) (c : Context) (body : Stmt Address) (condition : Expr Address) (m : Machine)
  | arms (n : Nat) (c : Context) (subject : Value) (arms : Arms Address) (m : Machine)
  | program (n : Nat) (c : Context) (ss : List (Stmt Address)) (m : Machine)

/-- The step from a piece of a program to a part of it. -/
inductive Part where
  | text (i : Nat)
  | child (i : Nat)
  | initializer (name : Token)
  | block
  | body
deriving DecidableEq

/-- Where a piece of a program stands: the steps that lead there, the last step first. -/
abbrev Place := List Part

namespace Place

/-- The blocks and functions around the place, from the innermost outward. -/
def scopes : Place → List Place
  | [] => []
  | .block :: p => (.block :: p) :: scopes p
  | .body :: p => (.body :: p) :: scopes p
  | .text _ :: p | .child _ :: p | .initializer _ :: p => scopes p

/-- The variable whose initializer the place lies in. No block or function is between them. -/
def initialized? : Place → Option Token
  | .initializer name :: _ => some name
  | .child _ :: p => initialized? p
  | _ => none

end Place

namespace Task

/-- The call that is out of frames for the expression or the statement. -/
def overflow? : Task → Option Token
  | expr _ c _ _ | stmt _ c _ _ => c.deeper.stack.overflow?
  | _ => none

/-- The second evaluation takes place in the first one if there are frames for that, in the part of
its piece of the program that the steps lead to. What comes before it has been done. The bodies of
functions are left out. -/
inductive Inside : List Part → Task → Task → Prop where
  | grouping {n : Nat} {c : Context} {inner : Expr Address} {m : Machine} :
    Inside [.child 0] (.expr (n + 1) c (.grouping inner) m) (.expr n c.deeper inner m)
  | assign {n : Nat} {c : Context} {name : Token} {value : Expr Address} {address : Address}
    {m : Machine} :
    Inside [.child 0] (.expr (n + 1) c (.assign name value address) m) (.expr n c.deeper value m)
  | unary {n : Nat} {c : Context} {operator : Token} {right : Expr Address} {m : Machine} :
    Inside [.child 0] (.expr (n + 1) c (.unary operator right) m) (.expr n c.deeper right m)
  | condition {n : Nat} {c : Context} {condition yes no : Expr Address} {m : Machine} :
    Inside [.child 0] (.expr (n + 1) c (.conditional condition yes no) m)
      (.expr n c.deeper condition m)
  | yes {n : Nat} {c : Context} {condition yes no : Expr Address} {m m' : Machine} {v : Value}
    (hcondition : eval n c.deeper condition m = .done v m') (hv : v.isTruthy = true) :
    Inside [.child 1] (.expr (n + 1) c (.conditional condition yes no) m) (.expr n c.deeper yes m')
  | no {n : Nat} {c : Context} {condition yes no : Expr Address} {m m' : Machine} {v : Value}
    (hcondition : eval n c.deeper condition m = .done v m') (hv : v.isTruthy = false) :
    Inside [.child 2] (.expr (n + 1) c (.conditional condition yes no) m) (.expr n c.deeper no m')
  | left {n : Nat} {c : Context} {left right : Expr Address} {operator : Token} {m : Machine} :
    Inside [.child 0] (.expr (n + 1) c (.binary left operator right) m) (.expr n c.deeper left m)
  | right {n : Nat} {c : Context} {left right : Expr Address} {operator : Token} {m m' : Machine}
    {v : Value} (hleft : eval n c.deeper left m = .done v m')
    (hand : operator.kind = .and → v.isTruthy = true)
    (hor : operator.kind = .or → v.isTruthy = false) :
    Inside [.child 1] (.expr (n + 1) c (.binary left operator right) m) (.expr n c.deeper right m')
  | callee {n : Nat} {c : Context} {callee : Expr Address} {paren : Token}
    {arguments : List (Expr Address)} {m : Machine} :
    Inside [.child 0] (.expr (n + 1) c (.call callee paren arguments) m) (.expr n c.deeper callee m)
  | arguments {n : Nat} {c : Context} {callee : Expr Address} {paren : Token}
    {arguments : List (Expr Address)} {m m' : Machine} {v : Value} {f : Callee}
    (hcallee : eval n c.deeper callee m = .done v m') (hf : Callee.ofValue? v = some f) :
    Inside [.child 1] (.expr (n + 1) c (.call callee paren arguments) m)
      (.exprs n c.deeper arguments m')
  | call {n : Nat} {c : Context} {callee : Expr Address} {paren : Token}
    {arguments : List (Expr Address)} {m m' m'' : Machine} {v : Value} {f : Callee}
    {vs : List Value} (hcallee : eval n c.deeper callee m = .done v m')
    (hf : Callee.ofValue? v = some f)
    (harguments : evalAll n c.deeper arguments m' = .done vs m'') :
    Inside [] (.expr (n + 1) c (.call callee paren arguments) m) (.call n c.deeper paren f vs m'')
  | argument {n : Nat} {c : Context} {e : Expr Address} {es : List (Expr Address)} {m : Machine} :
    Inside [.child 0] (.exprs (n + 1) c (e :: es) m) (.expr n c e m)
  | moreArguments {n : Nat} {c : Context} {e : Expr Address} {es : List (Expr Address)}
    {m m' : Machine} {v : Value} (he : eval n c e m = .done v m') :
    Inside [.child 1] (.exprs (n + 1) c (e :: es) m) (.exprs n c es m')
  | block {n : Nat} {c : Context} {body : List (Stmt Address)} {m : Machine} :
    Inside [.block] (.stmt (n + 1) c (.block body) m)
      (.stmts n (c.deeper.inside (m.enter c.scope).1) body (m.enter c.scope).2)
  | doLoop {n : Nat} {c : Context} {body : Stmt Address} {condition : Expr Address} {m : Machine} :
    Inside [] (.stmt (n + 1) c (.doLoop body condition) m) (.doRounds n c.deeper body condition m)
  | expression {n : Nat} {c : Context} {value : Expr Address} {m : Machine} :
    Inside [.child 0] (.stmt (n + 1) c (.expression value) m) (.expr n c.deeper value m)
  | ifCondition {n : Nat} {c : Context} {condition : Expr Address} {yes : Stmt Address}
    {m : Machine} :
    Inside [.child 0] (.stmt (n + 1) c (.ifThen condition yes) m) (.expr n c.deeper condition m)
  | ifThen {n : Nat} {c : Context} {condition : Expr Address} {yes : Stmt Address}
    {m m' : Machine} {v : Value} (hcondition : eval n c.deeper condition m = .done v m')
    (hv : v.isTruthy = true) :
    Inside [.child 1] (.stmt (n + 1) c (.ifThen condition yes) m) (.stmt n c.deeper yes m')
  | elseCondition {n : Nat} {c : Context} {condition : Expr Address} {yes no : Stmt Address}
    {m : Machine} :
    Inside [.child 0] (.stmt (n + 1) c (.ifElse condition yes no) m) (.expr n c.deeper condition m)
  | thenBranch {n : Nat} {c : Context} {condition : Expr Address} {yes no : Stmt Address}
    {m m' : Machine} {v : Value} (hcondition : eval n c.deeper condition m = .done v m')
    (hv : v.isTruthy = true) :
    Inside [.child 1] (.stmt (n + 1) c (.ifElse condition yes no) m) (.stmt n c.deeper yes m')
  | elseBranch {n : Nat} {c : Context} {condition : Expr Address} {yes no : Stmt Address}
    {m m' : Machine} {v : Value} (hcondition : eval n c.deeper condition m = .done v m')
    (hv : v.isTruthy = false) :
    Inside [.child 2] (.stmt (n + 1) c (.ifElse condition yes no) m) (.stmt n c.deeper no m')
  | print {n : Nat} {c : Context} {value : Expr Address} {m : Machine} :
    Inside [.child 0] (.stmt (n + 1) c (.print value) m) (.expr n c.deeper value m)
  | give {n : Nat} {c : Context} {keyword : Token} {value : Expr Address} {m : Machine} :
    Inside [.child 0] (.stmt (n + 1) c (.give keyword (some value)) m) (.expr n c.deeper value m)
  | subject {n : Nat} {c : Context} {subject : Expr Address} {arms : Arms Address} {m : Machine} :
    Inside [.child 0] (.stmt (n + 1) c (.switch subject arms) m) (.expr n c.deeper subject m)
  | arms {n : Nat} {c : Context} {subject : Expr Address} {arms : Arms Address} {m m' : Machine}
    {v : Value} (hsubject : eval n c.deeper subject m = .done v m') :
    Inside [.child 1] (.stmt (n + 1) c (.switch subject arms) m) (.arms n c.deeper v arms m')
  | initializer {n : Nat} {c : Context} {name : Token} {init : Expr Address} {m : Machine} :
    Inside [.initializer name] (.stmt (n + 1) c (.var name (some init)) m) (.expr n c.deeper init m)
  | loop {n : Nat} {c : Context} {condition : Expr Address} {body : Stmt Address} {m : Machine} :
    Inside [] (.stmt (n + 1) c (.loop condition body) m) (.rounds n c.deeper condition body none m)
  | loopStep {n : Nat} {c : Context} {condition : Expr Address} {body step : Stmt Address}
    {m : Machine} :
    Inside [] (.stmt (n + 1) c (.loopStep condition body step) m)
      (.rounds n c.deeper condition body (some step) m)
  | first {n : Nat} {c : Context} {s : Stmt Address} {ss : List (Stmt Address)} {m : Machine} :
    Inside [.child 0] (.stmts (n + 1) c (s :: ss) m) (.stmt n c s m)
  | others {n : Nat} {c : Context} {s : Stmt Address} {ss : List (Stmt Address)} {m m' : Machine}
    (hs : exec n c s m = .done .normal m') :
    Inside [.child 1] (.stmts (n + 1) c (s :: ss) m) (.stmts n c ss m')
  | loopCondition {n : Nat} {c : Context} {condition : Expr Address} {body : Stmt Address}
    {step : Option (Stmt Address)} {m : Machine} :
    Inside [.child 0] (.rounds (n + 1) c condition body step m) (.expr n c condition m)
  | loopBody {n : Nat} {c : Context} {condition : Expr Address} {body : Stmt Address}
    {step : Option (Stmt Address)} {m m' : Machine} {v : Value}
    (hcondition : eval n c condition m = .done v m') (hv : v.isTruthy = true) :
    Inside [.child 1] (.rounds (n + 1) c condition body step m) (.stmt n c body m')
  | step {n : Nat} {c : Context} {condition : Expr Address} {body step : Stmt Address}
    {m m' m'' : Machine} {v : Value} {flow : Flow}
    (hcondition : eval n c condition m = .done v m') (hv : v.isTruthy = true)
    (hbody : exec n c body m' = .done flow m'') (hflow : flow = .normal ∨ flow = .jump .again) :
    Inside [.child 2] (.rounds (n + 1) c condition body (some step) m) (.stmt n c step m'')
  | nextRound {n : Nat} {c : Context} {condition : Expr Address} {body : Stmt Address}
    {m m' m'' : Machine} {v : Value} {flow : Flow}
    (hcondition : eval n c condition m = .done v m') (hv : v.isTruthy = true)
    (hbody : exec n c body m' = .done flow m'') (hflow : flow = .normal ∨ flow = .jump .again) :
    Inside [] (.rounds (n + 1) c condition body none m) (.rounds n c condition body none m'')
  | nextStep {n : Nat} {c : Context} {condition : Expr Address} {body step : Stmt Address}
    {m m' m'' m₃ : Machine} {v : Value} {flow flow' : Flow}
    (hcondition : eval n c condition m = .done v m') (hv : v.isTruthy = true)
    (hbody : exec n c body m' = .done flow m'') (hflow : flow = .normal ∨ flow = .jump .again)
    (hstep : exec n c step m'' = .done flow' m₃) :
    Inside [] (.rounds (n + 1) c condition body (some step) m)
      (.rounds n c condition body (some step) m₃)
  | doBody {n : Nat} {c : Context} {body : Stmt Address} {condition : Expr Address} {m : Machine} :
    Inside [.child 0] (.doRounds (n + 1) c body condition m) (.stmt n c body m)
  | doCondition {n : Nat} {c : Context} {body : Stmt Address} {condition : Expr Address}
    {m m' : Machine} {flow : Flow} (hbody : exec n c body m = .done flow m')
    (hflow : flow = .normal ∨ flow = .jump .again) :
    Inside [.child 1] (.doRounds (n + 1) c body condition m) (.expr n c condition m')
  | doRound {n : Nat} {c : Context} {body : Stmt Address} {condition : Expr Address}
    {m m' m'' : Machine} {flow : Flow} {v : Value} (hbody : exec n c body m = .done flow m')
    (hflow : flow = .normal ∨ flow = .jump .again)
    (hcondition : eval n c condition m' = .done v m'') (hv : v.isTruthy = true) :
    Inside [] (.doRounds (n + 1) c body condition m) (.doRounds n c body condition m'')
  | otherwise {n : Nat} {c : Context} {v : Value} {body : Stmt Address} {m : Machine} :
    Inside [.child 0] (.arms (n + 1) c v (.otherwise body) m) (.stmt n c body m)
  | armCondition {n : Nat} {c : Context} {v : Value} {condition : Expr Address}
    {body : Stmt Address} {rest : Arms Address} {m : Machine} :
    Inside [.child 0] (.arms (n + 1) c v (.case condition body rest) m) (.expr n c condition m)
  | armBody {n : Nat} {c : Context} {v w : Value} {condition : Expr Address} {body : Stmt Address}
    {rest : Arms Address} {m m' : Machine} (hcondition : eval n c condition m = .done w m')
    (hw : w.isEqual v = true) :
    Inside [.child 1] (.arms (n + 1) c v (.case condition body rest) m) (.stmt n c body m')
  | nextArm {n : Nat} {c : Context} {v w : Value} {condition : Expr Address} {body : Stmt Address}
    {rest : Arms Address} {m m' : Machine} (hcondition : eval n c condition m = .done w m')
    (hw : w.isEqual v = false) :
    Inside [.child 2] (.arms (n + 1) c v (.case condition body rest) m)
      (.arms n c v rest m')
  | topFirst {n : Nat} {c : Context} {s : Stmt Address} {ss : List (Stmt Address)} {m : Machine} :
    Inside [.child 0] (.program n c (s :: ss) m) (.stmt n c s m)
  | topOthers {n : Nat} {c : Context} {s : Stmt Address} {ss : List (Stmt Address)}
    {m m' : Machine} {flow : Flow} (hs : exec n c s m = .done flow m') :
    Inside [.child 1] (.program n c (s :: ss) m) (.program n c ss m')

/-- The scopes that the resolver has around a part of the piece, if these are around the whole. -/
def stack (scopes : Scopes) : Task → List Part → Scopes
  | stmt _ _ (.block _) _, _ => [] :: scopes
  | stmt _ _ (.var name _) _, _ => scopes.declare name
  | stmt _ _ (.ifElse _ yes _) _, [.child 2] => yes.declare scopes
  | stmts _ _ (s :: _) _, [.child 1] | program _ _ (s :: _) _, [.child 1] => s.declare scopes
  | rounds _ _ _ body _ _, [.child 2] | doRounds _ _ body _ _, [.child 1]
  | arms _ _ _ (.case _ body _) _, [.child 2] => body.declare scopes
  | _, _ => scopes

/-- The call runs the body of the closure, in the new scope. -/
inductive Enters : Task → Closure → Scope → Task → Prop where
  | intro {n : Nat} {c : Context} {paren : Token} {f : Closure} {vs : List Value}
    {m m' : Machine} (harity : vs.length = f.params.length)
    (hroom : (c.calling paren).stack.overflow? = none)
    (hparams : Machine.defineAll (m.enter f.scope).1 f.params vs (m.enter f.scope).2 =
      .done () m') :
    Enters (.call (n + 1) c paren (.closure f) vs m) f (m.enter f.scope).1
      (.stmts n ((c.calling paren).entering (m.enter f.scope).1) f.body m')

/-- The evaluation is of a declaration of a function, and the closure is the function it makes. -/
inductive Makes : Task → Closure → Machine → Prop where
  | intro {n : Nat} {c : Context} {f : Closure} {m m' : Machine} (hscope : f.scope = c.scope)
    (hserial : f.serial = m.closures)
    (hdone : exec (n + 1) c (.function f.name f.params f.body) m = .done .normal m') :
    Makes (.stmt (n + 1) c (.function f.name f.params f.body) m) f m'

/-- A declaration of a function that is carried out makes this closure. -/
theorem makes_function {n : Nat} {c : Context} {name : Token} {params : List Token}
    {body : List (Stmt Address)} {m : Machine} {s : Store Value}
    (hroom : c.deeper.stack.overflow? = none)
    (hs : m.store.define c.scope name (.closure ⟨m.closures, name, params, body, c.scope⟩) =
      .ok s) :
    Makes (.stmt (n + 1) c (.function name params body) m)
      ⟨m.closures, name, params, body, c.scope⟩
      { m with store := s, closures := m.closures + 1 } := by
  have hdone : exec (n + 1) c (.function name params body) m =
      .done .normal { m with store := s, closures := m.closures + 1 } := by
    simp only [exec, Context.guard_of_room hroom, Context.scope_deeper, Machine.define, hs]
    rfl
  exact .intro (f := ⟨m.closures, name, params, body, c.scope⟩) rfl rfl hdone

def machine : Task → Machine
  | expr _ _ _ m | exprs _ _ _ m | call _ _ _ _ _ m | stmt _ _ _ m | stmts _ _ _ m
  | rounds _ _ _ _ _ m | doRounds _ _ _ _ m | arms _ _ _ _ m | program _ _ _ m => m

end Task

/-- Every name that was bound still is: a store that may come later. -/
abbrev Store.Before (s s' : Store Value) : Prop := s.Keeps (fun _ => True) s'

variable (starts : Place → Task → Prop)

/-- The evaluations that take place in the course of those that are started. -/
inductive Visited : Task → Prop where
  | start {p : Place} {t : Task} (h : starts p t) : Visited t
  | inside {path : List Part} {t t' : Task} (h : Visited t) (hroom : t.overflow? = none)
    (hin : t.Inside path t') : Visited t'
  | body {t t' : Task} {f : Closure} {scope : Scope} (h : Visited t)
    (hbody : t.Enters f scope t') : Visited t'

/-- The evaluation belongs at this place, and the resolver comes there with these scopes. The body
of a closure is a part of the declaration that made the closure earlier, wherever it is called. -/
inductive Located : Place → Scopes → Task → Prop where
  | start {p : Place} {t : Task} (h : starts p t) : Located p [] t
  | inside {p path : Place} {scopes : Scopes} {t t' : Task} (h : Located p scopes t)
    (hroom : t.overflow? = none) (hin : t.Inside path t') :
    Located (path ++ p) (t.stack scopes path) t'
  | body {p q : Place} {scopes outer : Scopes} {t t' d : Task} {f : Closure} {scope : Scope}
    {m : Machine} (h : Located p scopes t) (hbody : t.Enters f scope t') (hd : Located q outer d)
    (hmakes : d.Makes f m) (hbefore : m.store.Before t.machine.store) :
    Located (.body :: q) ((outer.define f.name).enter f.params) t'

/-- The scope was made by executing the block, or the body of the function, at the place. -/
inductive Created : Place → Scope → Prop where
  | block {p : Place} {scopes : Scopes} {n : Nat} {c : Context} {body : List (Stmt Address)}
    {m : Machine} (h : Located starts p scopes (.stmt (n + 1) c (.block body) m))
    (hroom : c.deeper.stack.overflow? = none) :
    Created (.block :: p) (m.enter c.scope).1
  | body {p q : Place} {scopes outer : Scopes} {t t' d : Task} {f : Closure} {scope : Scope}
    {m : Machine} (h : Located starts p scopes t) (hbody : t.Enters f scope t')
    (hd : Located starts q outer d) (hmakes : d.Makes f m)
    (hbefore : m.store.Before t.machine.store) : Created (.body :: q) scope

end Scriptlet

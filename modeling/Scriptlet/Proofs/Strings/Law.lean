import Scriptlet.Proofs.Scoping.Sessions
import Scriptlet.Proofs.Strings.Evaluation
import Scriptlet.Proofs.Strings.Quoted

/-! What a session prints for a string can be read again. No string of a program has a quote in it,
whatever it was made from, and so the quotes that it is printed between are those of a literal. -/
namespace Scriptlet

variable {P : String → Prop} {starts : Place → Task → Prop} {t t' : Task} {v : Value}

namespace Task

/-- The literals of the piece of the program. -/
def strings : Task → List String
  | expr _ _ e _ => e.strings
  | exprs _ _ es _ => Expr.stringsAll es
  | call .. => []
  | stmt _ _ s _ => s.strings
  | stmts _ _ ss _ | program _ _ ss _ => Stmt.stringsAll ss
  | rounds _ _ condition body step _ =>
    condition.strings ++ (step.elim [] Stmt.strings ++ body.strings)
  | doRounds _ _ body condition _ => body.strings ++ condition.strings
  | arms _ _ _ as _ => as.strings

/-- The values that the evaluation is given: a function and its arguments, or what is compared with
the cases. -/
def values : Task → List Value
  | call _ _ _ f vs _ => f.value :: vs
  | arms _ _ subject _ _ => [subject]
  | _ => []

/-- This is true of all strings that the evaluation begins with. -/
structure Only (P : String → Prop) (t : Task) : Prop where
  machine : t.machine.Only P
  strings (s : String) (h : s ∈ t.strings) : P s
  values (v : Value) (h : v ∈ t.values) : v.Only P

/-- A part has no literals but those of the whole. -/
theorem Inside.strings_subset {path : List Part} (hin : t.Inside path t') :
    ∀ s ∈ t'.strings, s ∈ t.strings := by
  intro s hs
  cases hin with
  | call => cases hs
  | grouping | assign | unary | block | doLoop | expression | print | give | initializer
  | otherwise | nextRound | nextStep | doRound | loop | loopStep => exact hs
  | condition | left | callee | argument | ifCondition | elseCondition | subject | first
  | loopCondition | doBody | armCondition | topFirst => exact List.mem_append_left _ hs
  | right | arguments | moreArguments | ifThen | arms | others | topOthers | doCondition =>
    exact List.mem_append_right _ hs
  | yes | thenBranch | armBody | step =>
    exact List.mem_append_right _ (List.mem_append_left _ hs)
  | no | elseBranch | loopBody | nextArm =>
    exact List.mem_append_right _ (List.mem_append_right _ hs)

/-- A part of the piece, begun with such values. -/
theorem Only.part {path : List Part} (h : t.Only P) (hin : t.Inside path t')
    (hm : t'.machine.Only P) (hvalues : ∀ v ∈ t'.values, v.Only P) : t'.Only P :=
  ⟨hm, fun s hs => h.strings s (hin.strings_subset s hs), hvalues⟩

theorem none_only : ∀ v ∈ ([] : List Value), v.Only P := nofun

section

variable {n : Nat} {c : Context} {e : Expr Address} {es : List (Expr Address)} {s : Stmt Address}
  {m m' : Machine} {flow : Flow} {vs : List Value}

theorem Only.eval (h : (expr n c e m).Only P) (hP : Joinable P)
    (hdone : Scriptlet.eval n c e m = .done v m') : v.Only P ∧ m'.Only P := by
  have hresult : (Scriptlet.eval n c e m).Only P (Value.Only P) :=
    (onlyEval hP n).eval c h.strings h.machine
  rwa [hdone] at hresult

theorem Only.evalAll (h : (exprs n c es m).Only P) (hP : Joinable P)
    (hdone : Scriptlet.evalAll n c es m = .done vs m') : (∀ v ∈ vs, v.Only P) ∧ m'.Only P := by
  have hresult : (Scriptlet.evalAll n c es m).Only P fun vs => ∀ v ∈ vs, v.Only P :=
    (onlyEval hP n).evalAll c h.strings h.machine
  rwa [hdone] at hresult

theorem Only.exec (h : (stmt n c s m).Only P) (hP : Joinable P)
    (hdone : Scriptlet.exec n c s m = .done flow m') : flow.Only P ∧ m'.Only P := by
  have hresult : (Scriptlet.exec n c s m).Only P (Flow.Only P) :=
    (onlyEval hP n).exec c h.strings h.machine
  rwa [hdone] at hresult

end

/-- What takes place inside an evaluation begins with what the parts before it have left. -/
theorem Inside.begins {path : List Part} (hin : t.Inside path t') (hP : Joinable P)
    (h : t.Only P) : t'.machine.Only P ∧ ∀ v ∈ t'.values, v.Only P := by
  have hm := h.machine
  cases hin with
  | grouping | assign | unary | condition | left | callee | argument | doLoop | expression
  | ifCondition | elseCondition | print | give | subject | initializer | loop | loopStep | first
  | loopCondition | doBody | otherwise | armCondition | topFirst => exact ⟨hm, none_only⟩
  | block => exact ⟨hm.enter _, none_only⟩
  | yes he | no he => exact ⟨((h.part .condition hm none_only).eval hP he).2, none_only⟩
  | right he => exact ⟨((h.part .left hm none_only).eval hP he).2, none_only⟩
  | arguments he => exact ⟨((h.part .callee hm none_only).eval hP he).2, none_only⟩
  | call he hf hes =>
    obtain ⟨hcallee, hm'⟩ := (h.part .callee hm none_only).eval hP he
    obtain ⟨hvs, hm''⟩ := (h.part (.arguments he hf) hm' none_only).evalAll hP hes
    exact ⟨hm'', List.forall_mem_cons.2 ⟨only_callee hcallee hf, hvs⟩⟩
  | moreArguments he => exact ⟨((h.part .argument hm none_only).eval hP he).2, none_only⟩
  | ifThen he => exact ⟨((h.part .ifCondition hm none_only).eval hP he).2, none_only⟩
  | thenBranch he | elseBranch he =>
    exact ⟨((h.part .elseCondition hm none_only).eval hP he).2, none_only⟩
  | arms he =>
    obtain ⟨hsubject, hm'⟩ := (h.part .subject hm none_only).eval hP he
    exact ⟨hm', List.forall_mem_singleton.2 hsubject⟩
  | others hs => exact ⟨((h.part .first hm none_only).exec hP hs).2, none_only⟩
  | topOthers hs => exact ⟨((h.part .topFirst hm none_only).exec hP hs).2, none_only⟩
  | loopBody he => exact ⟨((h.part .loopCondition hm none_only).eval hP he).2, none_only⟩
  | step he hv hs | nextRound he hv hs =>
    obtain ⟨-, hm'⟩ := (h.part .loopCondition hm none_only).eval hP he
    exact ⟨((h.part (.loopBody he hv) hm' none_only).exec hP hs).2, none_only⟩
  | nextStep he hv hs hflow hstep =>
    obtain ⟨-, hm'⟩ := (h.part .loopCondition hm none_only).eval hP he
    obtain ⟨-, hm''⟩ := (h.part (.loopBody he hv) hm' none_only).exec hP hs
    exact ⟨((h.part (.step he hv hs hflow) hm'' none_only).exec hP hstep).2, none_only⟩
  | doCondition hs => exact ⟨((h.part .doBody hm none_only).exec hP hs).2, none_only⟩
  | doRound hs hflow he =>
    obtain ⟨-, hm'⟩ := (h.part .doBody hm none_only).exec hP hs
    exact ⟨((h.part (.doCondition hs hflow) hm' none_only).eval hP he).2, none_only⟩
  | armBody he => exact ⟨((h.part .armCondition hm none_only).eval hP he).2, none_only⟩
  | nextArm he => exact ⟨((h.part .armCondition hm none_only).eval hP he).2, h.values⟩

theorem Inside.only {path : List Part} (hin : t.Inside path t') (hP : Joinable P)
    (h : t.Only P) : t'.Only P :=
  h.part hin (hin.begins hP h).1 (hin.begins hP h).2

theorem Enters.only {f : Closure} {scope : Scope} (hbody : t.Enters f scope t') (h : t.Only P) :
    t'.Only P := by
  cases hbody with
  | @intro n c paren f vs m m' _ _ hparams =>
    obtain ⟨hf, hvs⟩ := List.forall_mem_cons.1 h.values
    have hm : (m.enter f.scope).2.Only P := Machine.Only.enter h.machine f.scope
    have hdefined : (Machine.defineAll (m.enter f.scope).1 f.params vs (m.enter f.scope).2).Only P
        fun _ => True := only_defineAll hm hvs
    rw [hparams] at hdefined
    exact ⟨hdefined.2, hf, none_only⟩

end Task

/-- If it is true of all strings that the programs begin with, it is of those that any evaluation
begins with. -/
theorem Visited.only (hP : Joinable P) (hstart : ∀ p t, starts p t → t.Only P)
    (h : Visited starts t) : t.Only P := by
  induction h with
  | start h => exact hstart _ _ h
  | inside _ _ hin ih => exact hin.only hP ih
  | body _ hbody ih => exact hbody.only ih

/-- The value comes up in the evaluation: among the variables, in what has been printed, as one of
the values it is given, or as what becomes of it. -/
inductive Task.Has : Task → Value → Prop where
  | bound {t : Task} {i : Nat} {z : String} {v : Value}
    (h : (t.machine.store.frame i).lookup z = some v) : Has t v
  | printed {t : Task} {v : Value} (h : v ∈ t.machine.printed) : Has t v
  | given {t : Task} {v : Value} (h : v ∈ t.values) : Has t v
  | expr {n : Nat} {c : Context} {e : Expr Address} {m m' : Machine} {v : Value}
    (h : eval n c e m = .done v m') : Has (.expr n c e m) v
  | exprs {n : Nat} {c : Context} {es : List (Expr Address)} {m m' : Machine} {vs : List Value}
    {v : Value} (h : evalAll n c es m = .done vs m') (hv : v ∈ vs) : Has (.exprs n c es m) v
  | call {n : Nat} {c : Context} {paren : Token} {f : Callee} {vs : List Value} {m m' : Machine}
    {v : Value} (h : Scriptlet.call n c paren f vs m = .done v m') : Has (.call n c paren f vs m) v
  | stmt {n : Nat} {c : Context} {s : Stmt Address} {m m' : Machine} {v : Value}
    (h : exec n c s m = .done (.give v) m') : Has (.stmt n c s m) v
  | stmts {n : Nat} {c : Context} {ss : List (Stmt Address)} {m m' : Machine} {v : Value}
    (h : execAll n c ss m = .done (.give v) m') : Has (.stmts n c ss m) v
  | rounds {n : Nat} {c : Context} {condition : Expr Address} {body : Stmt Address}
    {step : Option (Stmt Address)} {m m' : Machine} {v : Value}
    (h : execLoop n c condition body step m = .done (.give v) m') :
    Has (.rounds n c condition body step m) v
  | doRounds {n : Nat} {c : Context} {body : Stmt Address} {condition : Expr Address}
    {m m' : Machine} {v : Value} (h : execDo n c body condition m = .done (.give v) m') :
    Has (.doRounds n c body condition m) v
  | arms {n : Nat} {c : Context} {subject : Value} {as : Arms Address} {m m' : Machine} {v : Value}
    (h : execArms n c subject as m = .done (.give v) m') : Has (.arms n c subject as m) v

theorem Outcome.Only.value {α : Type} {o : Outcome α} {V : α → Prop} {a : α} {m : Machine}
    (h : o.Only P V) (hdone : o = .done a m) : V a := by
  subst hdone
  exact h.1

theorem Task.Only.has (h : t.Only P) (hP : Joinable P) (hv : t.Has v) : v.Only P := by
  have hm := h.machine
  cases hv with
  | bound hv => exact hm.held _ _ v hv
  | printed hv => exact hm.printed v hv
  | given hv => exact h.values v hv
  | expr hv => exact ((onlyEval hP _).eval _ h.strings hm).value hv
  | exprs hv hmem => exact ((onlyEval hP _).evalAll _ h.strings hm).value hv v hmem
  | call hv =>
    obtain ⟨hf, hvs⟩ := List.forall_mem_cons.1 h.values
    exact ((onlyEval hP _).call _ _ hf hvs hm).value hv
  | stmt hv => exact ((onlyEval hP _).exec _ h.strings hm).value hv
  | stmts hv => exact ((onlyEval hP _).execAll _ h.strings hm).value hv
  | @rounds n c condition body step m m' v hv =>
    obtain ⟨hcondition, hround⟩ := List.forall_mem_append.1 h.strings
    obtain ⟨hstep, hbody⟩ := List.forall_mem_append.1 hround
    have hstep : ∀ st ∈ step, ∀ s ∈ st.strings, P s := by
      rintro st rfl
      exact hstep
    exact ((onlyEval hP _).execLoop _ hcondition hbody hstep hm).value hv
  | doRounds hv =>
    obtain ⟨hbody, hcondition⟩ := List.forall_mem_append.1 h.strings
    exact ((onlyEval hP _).execDo _ hbody hcondition hm).value hv
  | arms hv => exact ((onlyEval hP _).execArms _ _ h.strings hm).value hv

namespace Session

variable {s : Session} {subs : List Submission}

theorem new_only : Session.new.machine.Only P := by
  have hempty : Machine.Only P ⟨Store.empty.grow, 0, 0, #[]⟩ := by
    refine ⟨fun i z v hv => ?_, by simp⟩
    rw [Store.frame_grow, Store.frame_of_le (Nat.zero_le i)] at hv
    cases hv
  exact (hempty.add Machine.globals "clock" (v := .native .clock) trivial).add Machine.globals
    "typeof" (v := .native .typeof) trivial

/-- The machine that a program leaves has a printed record of its own. -/
theorem only_ofMachine {m : Machine} (h : m.Only P) : (ofMachine m).machine.Only P :=
  ⟨h.held, by simp [machine]⟩

theorem only_interpret (hP : Joinable P) (fuel : Nat) (host : Host) {program : List (Stmt Address)}
    (hprogram : ∀ s ∈ Stmt.stringsAll program, P s) (hs : s.machine.Only P) :
    (∀ v ∈ (s.interpret fuel host program).1.printed, v.Only P) ∧
      (s.interpret fuel host program).2.machine.Only P := by
  have hrun := only_execEach hP fuel (context host) hprogram hs
  unfold interpret
  cases hdone : execEach fuel (context host) program s.machine with
  | outOfFuel m =>
    rw [hdone] at hrun
    exact ⟨hrun.printed, hs⟩
  | done _ m =>
    rw [hdone] at hrun
    exact ⟨hrun.2.printed, only_ofMachine hrun.2⟩
  | stopped why m =>
    rw [hdone] at hrun
    cases why <;> exact ⟨hrun.printed, only_ofMachine hrun⟩

/-- A program begins with the strings of its text. -/
theorem only_parsed {room : Nat} {text : String} {program : List (Stmt Unit)}
    (hscan : ∀ text, ∀ s ∈ Token.strings (scan text), P s)
    (hparse : parse room (scan text) = .ok ⟨program, []⟩) :
    ∀ s ∈ Stmt.stringsAll (resolve program), P s := by
  obtain ⟨rest, hstrings⟩ := strings_parsed hparse
  intro s hs
  exact hscan text s (hstrings ▸ List.mem_append_left rest hs)

theorem only_run (hP : Joinable P) (hscan : ∀ text, ∀ s ∈ Token.strings (scan text), P s)
    (fuel : Nat) (host : Host) (text : String) (hs : s.machine.Only P) :
    (∀ v ∈ (s.run fuel host text).1.printed, v.Only P) ∧
      (s.run fuel host text).2.machine.Only P := by
  have hnothing : ∀ v ∈ (#[] : Array Value), v.Only P := by simp
  unfold run runTokens
  split
  next => exact ⟨hnothing, hs⟩
  next parsed hparse =>
    split
    · exact ⟨hnothing, hs⟩
    next hreports =>
      split
      · exact ⟨hnothing, hs⟩
      next =>
        obtain ⟨program, reports⟩ := parsed
        obtain rfl : reports = [] := Decidable.not_not.1 hreports
        exact only_interpret hP fuel host (only_parsed hscan hparse) hs

theorem Reached.only (hP : Joinable P) (hscan : ∀ text, ∀ s ∈ Token.strings (scan text), P s)
    (h : Reached subs s) : s.machine.Only P := by
  induction h with
  | new => exact new_only
  | run _ sub _ ih => exact (only_run hP hscan sub.fuel sub.host sub.text ih).2

theorem Starts.only {p : Place} (hP : Joinable P)
    (hscan : ∀ text, ∀ s ∈ Token.strings (scan text), P s) (h : Starts subs p t) : t.Only P := by
  cases h with
  | intro _ hreached hparse =>
    exact ⟨hreached.only hP hscan, only_parsed hscan hparse, Task.none_only⟩

end Session

theorem joinable_unquoted : Joinable Unquoted where
  append := Unquoted.append
  text t := by
    have hall : ∀ t : TypeName, '"' ∉ t.text.toList := fun t => by cases t <;> decide
    exact hall t

/-- What is printed for the string is the string again: for the scanner it is one literal and then
the end of the text, and for the parser an expression that says just this string. -/
structure ReadsBack (s : String) : Prop where
  scanned : ∃ pos, scan (Value.string s).print =
    [⟨.string, (Value.string s).print, .start⟩, ⟨.eof, "", pos⟩]
  parsed : ∃ before after, Parse.State.start? (scan (Value.string s).print) = some before ∧
    (∀ n, Parse.rulesPerToken + 11 ≤ n →
      Parse.expr n Parse.operandRules .comma before = .ok (.literal (.string s)) after) ∧
    after.current.kind = .eof ∧ after.reports = []

theorem Unquoted.readsBack {s : String} (h : Unquoted s) : ReadsBack s := by
  obtain ⟨pos, hscan⟩ := scan_quoted h
  refine ⟨⟨pos, hscan⟩, Parse.reading [⟨.string, (Value.string s).print, .start⟩, ⟨.eof, "", pos⟩],
    Parse.reading [⟨.eof, "", pos⟩], ?_, fun n hn => Parse.expr_quoted s .start pos hn, rfl, rfl⟩
  rw [show (Value.string s).print = "\"" ++ s ++ "\"" from rfl, hscan]
  rfl

/-- Whatever texts a session runs, none of the strings that its evaluations have to do with has a
quote in it, nor has any that is left in a variable. What is printed for a string is always read
back as the string. -/
theorem Session.strings_read_back (subs : List Submission) :
    (∀ t, Visited (Starts subs) t → ∀ s, t.Has (.string s) → '"' ∉ s.toList) ∧
    (∀ n c e m m' s, Visited (Starts subs) (.stmt (n + 1) c (.print e) m) →
      eval n c.deeper e m = .done (.string s) m' → ReadsBack s) ∧
    (∀ earlier sub later session, subs = earlier ++ sub :: later → Reached earlier session →
      let r := session.run sub.fuel sub.host sub.text
      (∀ i z s, (r.2.store.frame i).lookup z = some (.string s) → '"' ∉ s.toList) ∧
      ∀ s, .string s ∈ r.1.printed → ReadsBack s) := by
  have hvisited {t : Task} (h : Visited (Starts subs) t) : t.Only Unquoted :=
    h.only joinable_unquoted fun _ _ => Starts.only joinable_unquoted unquoted_scan
  refine ⟨fun t ht s hs => (hvisited ht).has joinable_unquoted hs, ?_, ?_⟩
  · intro n c e m m' s hprint hvalue
    have hvalues := (hvisited hprint).part .print (hvisited hprint).machine Task.none_only
    have hs : (Value.string s).Only Unquoted := hvalues.has joinable_unquoted (.expr hvalue)
    exact Unquoted.readsBack hs
  · intro earlier sub later session _ hreached r
    obtain ⟨hprinted, hleft⟩ := only_run joinable_unquoted unquoted_scan sub.fuel sub.host sub.text
      (hreached.only joinable_unquoted unquoted_scan)
    exact ⟨fun i z s hs => hleft.held i z _ hs,
      fun s hs => Unquoted.readsBack (hprinted (.string s) hs)⟩

/-- A function that joins a literal and the name of the type of its argument, which is itself. -/
theorem Session.strings_read_back_call :
    let sub : Submission :=
      ⟨"function f(x) \x7breturn \"<\" + typeof(x);\x7d\nprint f(f);", 20, .still 99 0⟩
    .string "<Function" ∈ (new.run sub.fuel sub.host sub.text).1.printed ∧
      ReadsBack "<Function" := by
  intro sub
  have hany : (new.run sub.fuel sub.host sub.text).1.printed.any
      (Value.string "<Function").isEqual = true := by decide +kernel
  have hprinted : .string "<Function" ∈ (new.run sub.fuel sub.host sub.text).1.printed := by
    obtain ⟨v, hv, hs⟩ := Array.any_eq_true'.1 hany
    cases v with
    | string s => exact eq_of_beq hs ▸ hv
    | nil | bool | number | native | closure => cases hs
  obtain ⟨-, -, hruns⟩ := Session.strings_read_back [sub]
  obtain ⟨-, hread⟩ := hruns [] sub [] new rfl .new
  exact ⟨hprinted, hread "<Function" hprinted⟩

end Scriptlet

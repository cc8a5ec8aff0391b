import Scriptlet.Proofs.Evaluation.Alike
import Scriptlet.Proofs.Evaluation.Keeps
import Scriptlet.Proofs.Strings.Literals

/-! Where the strings of an evaluation come from: from literals and the names of types, by
concatenation. What is true of those, and of two strings joined when it is true of both, is true of
all strings in all variables and values. -/
namespace Scriptlet

variable {α β : Type}

/-- True of the names of types, and of joined strings when it is true of both. -/
structure Joinable (P : String → Prop) : Prop where
  append {s t : String} (hs : P s) (ht : P t) : P (s ++ t)
  text (t : TypeName) : P t.text

/-- If the value is a string, this is true of it; if it is a closure, of the literals it has. -/
def Value.Only (P : String → Prop) : Value → Prop
  | .string s => P s
  | .closure f => ∀ s ∈ Stmt.stringsAll f.body, P s
  | .nil | .bool _ | .number _ | .native _ => True

def Flow.Only (P : String → Prop) : Flow → Prop
  | .give v => v.Only P
  | .normal | .jump _ => True

/-- All variables and all that was printed. -/
structure Machine.Only (P : String → Prop) (m : Machine) : Prop where
  held (i : Nat) (z : String) (v : Value) (h : (m.store.frame i).lookup z = some v) : v.Only P
  printed (v : Value) (h : v ∈ m.printed) : v.Only P

/-- The step leaves such values only, and its result is of this sort. -/
def Outcome.Only (P : String → Prop) (V : α → Prop) : Outcome α → Prop
  | .done a m => V a ∧ m.Only P
  | .stopped _ m | .outOfFuel m => m.Only P

variable {P : String → Prop} {V : α → Prop} {W : β → Prop} {m : Machine} {v w : Value}

theorem Outcome.Only.bind {o : Outcome α} {f : α → Machine → Outcome β} (ho : o.Only P V)
    (hf : ∀ a m, V a → m.Only P → (f a m).Only P W) : (o.bind f).Only P W := by
  cases o with
  | outOfFuel m | stopped why m => exact ho
  | done a m => exact hf a m ho.1 ho.2

theorem Outcome.Only.guard {c : Context} {f : Context → Outcome α} (hm : m.Only P)
    (hf : (f c).Only P V) : (c.guard m f).Only P V := by
  unfold Context.guard
  split
  · exact hm
  · exact hf

/-! Operators. -/

theorem Joinable.binary (hP : Joinable P) {operator : Token} (hv : v.Only P) (hw : w.Only P)
    {u : Value} (h : binary operator v w = .ok u) : u.Only P := by
  have hmade := combined_binary operator v w
  rw [h] at hmade
  cases hmade with
  | last => exact hw
  | joined => exact hP.append hv hw
  | bool | number => trivial

theorem unary_only {operator : Token} {u : Value} (h : unary operator v = .ok u) : u.Only P := by
  have hmade := turned_unary operator v
  rw [h] at hmade
  cases hmade <;> trivial

theorem Joinable.apply (hP : Joinable P) (now : Int) (f : Native) (vs : List Value) :
    (f.apply now vs).Only P := by
  unfold Native.apply
  split
  · trivial
  · exact hP.text _
  · trivial

theorem only_literal {value : Literal} (h : ∀ s ∈ value.strings, P s) : value.value.Only P := by
  cases value with
  | string s => exact h s (List.mem_singleton_self s)
  | nil | bool | number => trivial

theorem only_callee {f : Callee} (h : v.Only P) (hf : Callee.ofValue? v = some f) :
    f.value.Only P := by
  cases v with
  | native g => exact Option.some.inj hf ▸ h
  | closure g => exact Option.some.inj hf ▸ h
  | nil | bool | number | string => cases hf

theorem only_result {flow : Flow} (h : flow.Only P) : flow.result.Only P := by
  cases flow with
  | give v => exact h
  | normal | jump => trivial

/-! Variables. -/

namespace Machine.Only

theorem add (h : m.Only P) (scope : Scope) (name : String) (hv : v.Only P) :
    Machine.Only P { m with store := m.store.add scope name v } := by
  refine ⟨fun i z w hw => ?_, h.printed⟩
  rcases Store.lookup_of_add hw with rfl | hw
  · exact hv
  · exact h.held i z w hw

theorem set (h : m.Only P) (scope : Scope) (name : String) (hv : v.Only P) :
    Machine.Only P { m with store := m.store.set scope name v } := by
  refine ⟨fun i z w hw => ?_, h.printed⟩
  rcases Store.lookup_of_set hw with rfl | hw
  · exact hv
  · exact h.held i z w hw

theorem enter (h : m.Only P) (outer : Scope) : (m.enter outer).2.Only P := by
  refine ⟨fun i z v hv => ?_, h.printed⟩
  rw [Machine.enter, Store.frame_grow] at hv
  exact h.held i z v hv

theorem after (h : m.Only P) (f : Native) : (f.after m).Only P :=
  ⟨by simpa using h.held, by simpa using h.printed⟩

theorem print (h : m.Only P) (hv : v.Only P) : (m.print v).Only P :=
  ⟨h.held, fun w hw => by
    rcases Array.mem_push.1 hw with hw | rfl
    · exact h.printed w hw
    · exact hv⟩

end Machine.Only

/-! The single steps of an evaluation. -/

theorem only_ofExcept {e : Except Stop α} (hm : m.Only P) (h : ∀ a, e = .ok a → V a) :
    (Outcome.ofExcept m e).Only P V := by
  cases e with
  | ok a => exact ⟨h a rfl, hm⟩
  | error why => exact hm

theorem only_update {e : Except Stop (Store Value)} {a : α} (hm : m.Only P) (ha : V a)
    (h : ∀ store, e = .ok store → Machine.Only P { m with store }) :
    (m.update a e).Only P V := by
  cases e with
  | ok store => exact ⟨ha, h store rfl⟩
  | error why => exact hm

theorem only_read (hm : m.Only P) (c : Context) (name : Token) (address : Address) :
    (m.read c name address).Only P (Value.Only P) := by
  cases address with
  | global =>
    refine only_ofExcept hm fun v h => ?_
    obtain ⟨owner, hread⟩ := Store.read_of_get h
    exact hm.held _ _ v hread
  | up d =>
    refine only_ofExcept hm fun v h => ?_
    obtain ⟨owner, hread⟩ := Store.read_of_getAt h
    exact hm.held _ _ v hread

theorem only_write (hm : m.Only P) (hv : v.Only P) (c : Context) (name : Token)
    (address : Address) : (m.write c name v address).Only P (Value.Only P) := by
  cases address with
  | global =>
    refine only_update hm hv fun store h => ?_
    obtain ⟨owner, rfl⟩ := Store.set_of_assign h
    exact hm.set owner name.lexeme hv
  | up d =>
    refine only_update hm hv fun store h => ?_
    obtain ⟨owner, rfl⟩ := Store.set_of_assignAt h
    exact hm.set owner name.lexeme hv

theorem only_define (hm : m.Only P) (hv : v.Only P) (scope : Scope) (name : Token) :
    (m.define scope name v).Only P fun _ => True := by
  refine only_update hm trivial fun store h => ?_
  obtain ⟨-, rfl⟩ := Store.define_eq_ok.1 h
  exact hm.add scope name.lexeme hv

theorem only_defineAll {scope : Scope} {ps : List Token} {vs : List Value} (hm : m.Only P)
    (hvs : ∀ v ∈ vs, v.Only P) : (Machine.defineAll scope ps vs m).Only P fun _ => True := by
  induction ps generalizing vs m with
  | nil => exact ⟨trivial, hm⟩
  | cons p ps ih =>
    cases vs with
    | nil => exact ⟨trivial, hm⟩
    | cons v vs =>
      obtain ⟨hv, hvs⟩ := List.forall_mem_cons.1 hvs
      exact (only_define hm hv scope p).bind fun _ m _ hm => ih hm hvs

/-- What evaluation with this much fuel does with the strings, where this is true of those that it
begins with. -/
structure OnlyEval (P : String → Prop) (n : Nat) : Prop where
  eval (c : Context) {e : Expr Address} {m : Machine} (he : ∀ s ∈ e.strings, P s) (hm : m.Only P) :
    (eval n c e m).Only P (Value.Only P)
  evalAll (c : Context) {es : List (Expr Address)} {m : Machine}
    (hes : ∀ s ∈ Expr.stringsAll es, P s) (hm : m.Only P) :
    (evalAll n c es m).Only P fun vs => ∀ v ∈ vs, v.Only P
  call (c : Context) (paren : Token) {f : Callee} {vs : List Value} {m : Machine}
    (hf : f.value.Only P) (hvs : ∀ v ∈ vs, v.Only P) (hm : m.Only P) :
    (call n c paren f vs m).Only P (Value.Only P)
  exec (c : Context) {st : Stmt Address} {m : Machine} (hst : ∀ s ∈ st.strings, P s)
    (hm : m.Only P) : (exec n c st m).Only P (Flow.Only P)
  execAll (c : Context) {ss : List (Stmt Address)} {m : Machine}
    (hss : ∀ s ∈ Stmt.stringsAll ss, P s) (hm : m.Only P) :
    (execAll n c ss m).Only P (Flow.Only P)
  execLoop (c : Context) {condition : Expr Address} {body : Stmt Address}
    {step : Option (Stmt Address)} {m : Machine} (hcondition : ∀ s ∈ condition.strings, P s)
    (hbody : ∀ s ∈ body.strings, P s) (hstep : ∀ st ∈ step, ∀ s ∈ st.strings, P s)
    (hm : m.Only P) : (execLoop n c condition body step m).Only P (Flow.Only P)
  execDo (c : Context) {body : Stmt Address} {condition : Expr Address} {m : Machine}
    (hbody : ∀ s ∈ body.strings, P s) (hcondition : ∀ s ∈ condition.strings, P s)
    (hm : m.Only P) : (execDo n c body condition m).Only P (Flow.Only P)
  execArms (c : Context) (subject : Value) {as : Arms Address} {m : Machine}
    (has : ∀ s ∈ as.strings, P s) (hm : m.Only P) :
    (execArms n c subject as m).Only P (Flow.Only P)

variable {n : Nat}

theorem only_eval_succ (hP : Joinable P) (ih : OnlyEval P n) (c : Context) {e : Expr Address}
    {m : Machine} (he : ∀ s ∈ e.strings, P s) (hm : m.Only P) :
    (eval (n + 1) c e m).Only P (Value.Only P) := by
  rw [eval]
  refine .guard hm ?_
  generalize c.deeper = c
  cases e with
  | literal value => exact ⟨only_literal he, hm⟩
  | reference name address => exact only_read hm c name address
  | grouping inner => exact ih.eval c he hm
  | assign name value address =>
    exact (ih.eval c (e := value) he hm).bind fun v m hv hm => only_write hm hv c name address
  | unary operator right =>
    exact (ih.eval c (e := right) he hm).bind fun v m _ hm => only_ofExcept hm fun _ => unary_only
  | conditional condition yes no =>
    obtain ⟨hcondition, hbranches⟩ := List.forall_mem_append.1 he
    obtain ⟨hyes, hno⟩ := List.forall_mem_append.1 hbranches
    refine (ih.eval c hcondition hm).bind fun v m _ hm => ?_
    split
    · exact ih.eval c hyes hm
    · exact ih.eval c hno hm
  | binary left operator right =>
    obtain ⟨hleft, hright⟩ := List.forall_mem_append.1 he
    refine (ih.eval c hleft hm).bind fun l m hl hm => ?_
    split
    · split
      · exact ih.eval c hright hm
      · exact ⟨hl, hm⟩
    · split
      · exact ⟨hl, hm⟩
      · exact ih.eval c hright hm
    · exact (ih.eval c hright hm).bind fun r m hr hm => only_ofExcept hm fun _ => hP.binary hl hr
  | call callee paren arguments =>
    obtain ⟨hcallee, harguments⟩ := List.forall_mem_append.1 he
    refine (ih.eval c hcallee hm).bind fun v m hv hm => ?_
    split
    next => exact hm
    next f hf =>
      exact (ih.evalAll c harguments hm).bind fun vs m hvs hm =>
        ih.call c paren (only_callee hv hf) hvs hm

theorem only_call_succ (hP : Joinable P) (ih : OnlyEval P n) (c : Context) (paren : Token)
    {f : Callee} {vs : List Value} {m : Machine} (hf : f.value.Only P)
    (hvs : ∀ v ∈ vs, v.Only P) (hm : m.Only P) :
    (call (n + 1) c paren f vs m).Only P (Value.Only P) := by
  unfold call
  split
  · exact hm
  · refine .guard hm ?_
    cases f with
    | native f => exact ⟨hP.apply _ f vs, hm.after f⟩
    | closure f =>
      exact (only_defineAll (hm.enter f.scope) hvs).bind fun _ m' _ hm' =>
        (ih.execAll _ hf hm').bind fun flow m'' hflow hm'' => ⟨only_result hflow, hm''⟩

theorem only_exec_succ (ih : OnlyEval P n) (c : Context) {st : Stmt Address} {m : Machine}
    (hst : ∀ s ∈ st.strings, P s) (hm : m.Only P) :
    (exec (n + 1) c st m).Only P (Flow.Only P) := by
  rw [exec]
  refine .guard hm ?_
  generalize c.deeper = c
  have hdefine {m : Machine} {v : Value} (hm : m.Only P) (hv : v.Only P) (name : Token) :
      ((m.define c.scope name v).bind fun _ m => Outcome.done Flow.normal m).Only P
        (Flow.Only P) := (only_define hm hv c.scope name).bind fun _ _ _ hm => ⟨trivial, hm⟩
  cases st with
  | block body => exact ih.execAll _ hst (hm.enter c.scope)
  | jump j keyword => exact ⟨trivial, hm⟩
  | doLoop body condition =>
    obtain ⟨hbody, hcondition⟩ := List.forall_mem_append.1 hst
    exact ih.execDo c hbody hcondition hm
  | expression value => exact (ih.eval c hst hm).bind fun _ m _ hm => ⟨trivial, hm⟩
  | function name params body =>
    have hm' : Machine.Only P { m with closures := m.closures + 1 } := ⟨hm.held, hm.printed⟩
    exact hdefine (v := .closure ⟨m.closures, name, params, body, c.scope⟩) hm' hst name
  | ifThen condition yes =>
    obtain ⟨hcondition, hyes⟩ := List.forall_mem_append.1 hst
    refine (ih.eval c hcondition hm).bind fun v m _ hm => ?_
    split
    · exact ih.exec c hyes hm
    · exact ⟨trivial, hm⟩
  | ifElse condition yes no =>
    obtain ⟨hcondition, hbranches⟩ := List.forall_mem_append.1 hst
    obtain ⟨hyes, hno⟩ := List.forall_mem_append.1 hbranches
    refine (ih.eval c hcondition hm).bind fun v m _ hm => ?_
    split
    · exact ih.exec c hyes hm
    · exact ih.exec c hno hm
  | print value => exact (ih.eval c hst hm).bind fun v m hv hm => ⟨trivial, hm.print hv⟩
  | give keyword value =>
    cases value with
    | none => exact ⟨trivial, hm⟩
    | some e => exact (ih.eval c hst hm).bind fun v m hv hm => ⟨hv, hm⟩
  | switch subject arms =>
    obtain ⟨hsubject, harms⟩ := List.forall_mem_append.1 hst
    exact (ih.eval c hsubject hm).bind fun v m _ hm => ih.execArms c v harms hm
  | var name init =>
    cases init with
    | none => exact hdefine (v := .nil) hm trivial name
    | some e => exact (ih.eval c hst hm).bind fun v m hv hm => hdefine hm hv name
  | loop condition body =>
    obtain ⟨hcondition, hbody⟩ := List.forall_mem_append.1 hst
    exact ih.execLoop c hcondition hbody (by simp) hm
  | loopStep condition body step =>
    obtain ⟨hcondition, hround⟩ := List.forall_mem_append.1 hst
    obtain ⟨hstep, hbody⟩ := List.forall_mem_append.1 hround
    refine ih.execLoop c hcondition hbody (fun st hst => ?_) hm
    obtain rfl := Option.mem_some.1 hst
    exact hstep

theorem only_execLoop_succ (ih : OnlyEval P n) (c : Context) {condition : Expr Address}
    {body : Stmt Address} {step : Option (Stmt Address)} {m : Machine}
    (hcondition : ∀ s ∈ condition.strings, P s) (hbody : ∀ s ∈ body.strings, P s)
    (hstep : ∀ st ∈ step, ∀ s ∈ st.strings, P s) (hm : m.Only P) :
    (execLoop (n + 1) c condition body step m).Only P (Flow.Only P) := by
  rw [execLoop]
  refine (ih.eval c hcondition hm).bind fun v m _ hm => ?_
  split
  · refine (ih.exec c hbody hm).bind fun flow m hflow hm => ?_
    have hagain {m : Machine} (hm : m.Only P) := ih.execLoop c hcondition hbody hstep hm
    cases flow with
    | normal => cases step with
      | none => exact hagain hm
      | some st => exact (ih.exec c (hstep st rfl) hm).bind fun _ _ _ hm => hagain hm
    | give v => exact ⟨hflow, hm⟩
    | jump j => cases j with
      | exit => exact ⟨trivial, hm⟩
      | again => cases step with
        | none => exact hagain hm
        | some st => exact (ih.exec c (hstep st rfl) hm).bind fun _ _ _ hm => hagain hm
  · exact ⟨trivial, hm⟩

theorem only_execDo_succ (ih : OnlyEval P n) (c : Context) {body : Stmt Address}
    {condition : Expr Address} {m : Machine} (hbody : ∀ s ∈ body.strings, P s)
    (hcondition : ∀ s ∈ condition.strings, P s) (hm : m.Only P) :
    (execDo (n + 1) c body condition m).Only P (Flow.Only P) := by
  rw [execDo]
  refine (ih.exec c hbody hm).bind fun flow m hflow hm => ?_
  have hnext : ((eval n c condition m).bind fun v m =>
      if v.isTruthy then execDo n c body condition m else .done .normal m).Only P
        (Flow.Only P) := by
    refine (ih.eval c hcondition hm).bind fun v m _ hm => ?_
    split
    · exact ih.execDo c hbody hcondition hm
    · exact ⟨trivial, hm⟩
  cases flow with
  | normal => exact hnext
  | give v => exact ⟨hflow, hm⟩
  | jump j => cases j with
    | exit => exact ⟨trivial, hm⟩
    | again => exact hnext

theorem onlyEval (hP : Joinable P) (n : Nat) : OnlyEval P n := by
  induction n with
  | zero => constructor <;> intros <;> assumption
  | succ n ih =>
    refine ⟨only_eval_succ hP ih, fun c es m hes hm => ?_, only_call_succ hP ih,
      only_exec_succ ih, fun c ss m hss hm => ?_, only_execLoop_succ ih, only_execDo_succ ih,
      fun c subject as m has hm => ?_⟩
    · cases es with
      | nil => exact ⟨nofun, hm⟩
      | cons e es =>
        obtain ⟨he, hes⟩ := List.forall_mem_append.1 hes
        exact (ih.eval c he hm).bind fun v m hv hm => (ih.evalAll c hes hm).bind
          fun vs m hvs hm => ⟨List.forall_mem_cons.2 ⟨hv, hvs⟩, hm⟩
    · cases ss with
      | nil => exact ⟨trivial, hm⟩
      | cons s ss =>
        obtain ⟨hs, hss⟩ := List.forall_mem_append.1 hss
        rw [execAll]
        refine (ih.exec c hs hm).bind fun flow m hflow hm => ?_
        cases flow with
        | normal => exact ih.execAll c hss hm
        | give v | jump j => exact ⟨hflow, hm⟩
    · cases as with
      | done => exact ⟨trivial, hm⟩
      | otherwise body => exact ih.exec c has hm
      | case condition body rest =>
        obtain ⟨hcondition, hbranches⟩ := List.forall_mem_append.1 has
        obtain ⟨hbody, hrest⟩ := List.forall_mem_append.1 hbranches
        rw [execArms]
        refine (ih.eval c hcondition hm).bind fun v m _ hm => ?_
        split
        · exact ih.exec c hbody hm
        · exact ih.execArms c subject hrest hm

theorem only_execEach (hP : Joinable P) (n : Nat) (c : Context) {ss : List (Stmt Address)}
    {m : Machine} (hss : ∀ s ∈ Stmt.stringsAll ss, P s) (hm : m.Only P) :
    (execEach n c ss m).Only P fun _ => True := by
  induction ss generalizing m with
  | nil => exact ⟨trivial, hm⟩
  | cons s ss ih =>
    obtain ⟨hs, hss⟩ := List.forall_mem_append.1 hss
    exact ((onlyEval hP n).exec c hs hm).bind fun _ m _ hm => ih hss hm

end Scriptlet

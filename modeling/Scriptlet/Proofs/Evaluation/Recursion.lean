import Scriptlet.Proofs.Evaluation.Keeps
import Scriptlet.Proofs.Interpreter.Ends

/-! A function that calls itself for ever is stopped when the frames of the host are used up. How
many calls there are before depends on what stands around the call. -/
namespace Scriptlet

variable {α β : Type}

/-- Calls use up the frames of the host, and so many times `nil` is printed before. -/
def Outcome.Overflows (o : Outcome α) (m : Machine) (lines : Nat) : Prop :=
  ∃ paren m', o = .stopped (.error ⟨paren, .stackOverflow⟩) m' ∧
    m'.printed.toList = m.printed.toList ++ List.replicate lines .nil

theorem Outcome.Overflows.bind {o : Outcome α} {m : Machine} {lines : Nat}
    (h : o.Overflows m lines) (f : α → Machine → Outcome β) : (o.bind f).Overflows m lines := by
  obtain ⟨paren, m', rfl, hprinted⟩ := h
  exact ⟨paren, m', rfl, hprinted⟩

namespace Context

variable {c : Context} {m : Machine} {f : Context → Outcome α}

/-- There are so many frames more than have been taken. -/
def Spares (c : Context) (frames : Nat) : Prop := c.stack.taken + frames ≤ c.stack.host.frames

/-- In a call, so that a lack of frames is found out. -/
def InCall (c : Context) : Prop := c.stack.caller.isSome

theorem spares_max {i j : Nat} : c.Spares (max i j) ↔ c.Spares i ∧ c.Spares j := by
  unfold Spares
  omega

theorem guard_of_spares (h : c.Spares 0) : c.guard m f = f c :=
  guard_of_room (if_neg (Nat.not_lt.2 h))

theorem guard_overflows (hcall : c.InCall) (hf : c.Spares 0 → (f c).Overflows m 0) :
    (c.guard m f).Overflows m 0 := by
  by_cases h : c.Spares 0
  · rw [guard_of_spares h]
    exact hf h
  · obtain ⟨paren, hparen⟩ := Option.isSome_iff_exists.1 hcall
    have hover : c.stack.overflow? = some paren := (if_pos (Nat.lt_of_not_le h)).trans hparen
    exact ⟨paren, m, guard_of_overflow hover, by simp⟩

end Context

section Literals

variable {n : Nat} {c : Context} {m : Machine} (l : Literal)

theorem eval_literal (h : c.Spares treeFrames) :
    eval (n + 1) c (.literal l) m = .done l.value m := by
  rw [eval, Context.guard_of_spares h]

theorem overflows_literal (hcall : c.InCall) (h : ¬ c.Spares treeFrames) :
    (eval (n + 1) c (.literal l) m).Overflows m 0 := by
  rw [eval]
  exact Context.guard_overflows hcall fun hspares => absurd hspares h

/-- A tree in which a literal is the first thing. -/
theorem guard_literal (f : Value → Machine → Outcome α) (h : c.Spares (2 * treeFrames)) :
    (c.deeper.guard m fun c => (eval (n + 1) c (.literal l) m).bind f) = f l.value m := by
  have hdeeper : c.deeper.Spares treeFrames := h
  have hnone : c.deeper.Spares 0 := Nat.le_trans (Nat.le_add_right ..) hdeeper
  rw [Context.guard_of_spares hnone, eval_literal l hdeeper, Outcome.bind_done]

theorem guard_literal_overflows (f : Value → Machine → Outcome α) (hcall : c.InCall)
    (h : ¬ c.Spares (2 * treeFrames)) :
    (c.deeper.guard m fun c => (eval (n + 1) c (.literal l) m).bind f).Overflows m 0 := by
  have hdeeper : ¬ c.deeper.Spares treeFrames := h
  exact Context.guard_overflows hcall fun _ =>
    (overflows_literal (c := c.deeper) l hcall hdeeper).bind f

theorem exec_idle (h : c.Spares (2 * treeFrames)) :
    exec (n + 2) c (.expression (.literal l)) m = .done .normal m := by
  rw [exec, guard_literal l _ h]

theorem overflows_idle (hcall : c.InCall) (h : ¬ c.Spares (2 * treeFrames)) :
    (exec (n + 2) c (.expression (.literal l)) m).Overflows m 0 := by
  rw [exec]
  exact guard_literal_overflows l _ hcall h

end Literals

/-- The variable of the function still has it. -/
def Machine.Knows (m : Machine) (f : Closure) : Prop :=
  m.store.read? Machine.globals f.name.lexeme = some (.closure f)

theorem Machine.Knows.enter {m : Machine} {f : Closure} (h : m.Knows f) (outer : Scope) :
    (m.enter outer).2.Knows f := by
  unfold Knows Store.read? at h ⊢
  rw [← h]
  exact congrArg _ (Store.frame_grow _)

/-- What is carried out comes to the body of the function with `d` frames more, prints nothing
before, and ends as the body does. That takes `e` frames; without them it ends since they are not
there. -/
structure Recurs (f : Closure) (d e : Nat) (run : Nat → Context → Machine → Outcome α) : Prop where
  overflows {n : Nat} {c : Context} {m : Machine} (hcall : c.InCall) (hm : m.Knows f)
    (hroom : ¬ c.Spares e) : (run n c m).Overflows m 0
  enters {n : Nat} {c : Context} {m : Machine} {lines : Nat} (hm : m.Knows f)
    (hroom : c.Spares e)
    (hbody : ∀ c' m', c'.InCall → c'.stack.host = c.stack.host →
      c'.stack.taken = c.stack.taken + d → m'.Knows f → m'.printed = m.printed →
      (execAll n c' f.body m').Overflows m' lines) :
    (run n c m).Overflows m lines

namespace Recurs

variable {f : Closure} {d e : Nat} {run : Nat → Context → Machine → Outcome α}

theorem bind (h : Recurs f d e run) (g : Nat → Context → α → Machine → Outcome β) :
    Recurs f d e fun n c m => (run n c m).bind (g n c) where
  overflows hcall hm hroom := (h.overflows hcall hm hroom).bind _
  enters hm hroom hbody := (h.enters hm hroom hbody).bind _

/-- A tree around it. -/
theorem deeper (h : Recurs f d e run) :
    Recurs f (treeFrames + d) (treeFrames + e) fun n c m =>
      c.deeper.guard m fun c => run n c m where
  overflows hcall hm hroom := by
    refine Context.guard_overflows hcall fun _ => h.overflows hcall hm fun hspares => hroom ?_
    rw [Context.Spares, ← Nat.add_assoc]
    exact hspares
  enters {n c m lines} hm hroom hbody := by
    rw [Context.Spares, ← Nat.add_assoc] at hroom
    rw [Context.guard_of_spares (Nat.le_trans (Nat.le_add_right ..) hroom)]
    refine h.enters hm hroom fun c' m' hcall hhost htaken => hbody c' m' hcall hhost ?_
    rw [htaken, ← Nat.add_assoc]
    rfl

/-- A block around it. -/
theorem inside (h : Recurs f d e run) :
    Recurs f (blockFrames + d) (blockFrames + e) fun n c m =>
      run n (c.inside (m.enter c.scope).1) (m.enter c.scope).2 where
  overflows hcall hm hroom := by
    refine h.overflows hcall (hm.enter _) fun hspares => hroom ?_
    rw [Context.Spares, ← Nat.add_assoc]
    exact hspares
  enters {n c m lines} hm hroom hbody := by
    rw [Context.Spares, ← Nat.add_assoc] at hroom
    refine h.enters (hm.enter _) hroom fun c' m' hcall hhost htaken => hbody c' m' hcall hhost ?_
    rw [htaken, ← Nat.add_assoc]
    rfl

/-- Something before it that does nothing but may take more frames. -/
theorem after {e' : Nat} {first : Nat → Context → Machine → Outcome β}
    {g : Nat → Context → β → Machine → Outcome α} {b : β}
    (hfirst : ∀ n c m, m.Knows f → c.Spares e' → first n c m = .done b m)
    (hshort : ∀ n c m, c.InCall → ¬ c.Spares e' → (first n c m).Overflows m 0)
    (h : Recurs f d e fun n c m => g n c b m) :
    Recurs f d (max e' e) fun n c m => (first n c m).bind (g n c) where
  overflows {n c m} hcall hm hroom := by
    by_cases hspares : c.Spares e'
    · rw [hfirst n c m hm hspares]
      exact h.overflows hcall hm fun hspares' => hroom (Context.spares_max.2 ⟨hspares, hspares'⟩)
    · exact (hshort n c m hcall hspares).bind _
  enters {n c m lines} hm hroom hbody := by
    obtain ⟨hspares, hspares'⟩ := Context.spares_max.1 hroom
    rw [hfirst n c m hm hspares]
    exact h.enters hm hspares' hbody

/-- The call of the function itself. -/
theorem call (hparams : f.params = []) (paren : Token) :
    Recurs f callFrames callFrames fun n c m =>
      Scriptlet.call (n + 1) c paren (.closure f) [] m := by
  have hcall (n : Nat) (c : Context) (m : Machine) :
      Scriptlet.call (n + 1) c paren (.closure f) [] m = (c.calling paren).guard m fun c =>
        (execAll n (c.entering (m.enter f.scope).1) f.body (m.enter f.scope).2).bind
          fun flow m => .done flow.result m := by
    simp [Scriptlet.call, Callee.arity, hparams, Machine.defineAll]
  refine ⟨fun {n c m} _ _ hroom => ?_, fun {n c m lines} hm hroom hbody => ?_⟩
  · rw [hcall]
    exact Context.guard_overflows rfl fun hspares => absurd hspares hroom
  · rw [hcall, Context.guard_of_spares hroom]
    have hends := hbody ((c.calling paren).entering (m.enter f.scope).1) (m.enter f.scope).2
      rfl rfl rfl (hm.enter _) rfl
    exact hends.bind _

/-- The expression that calls it by its name. -/
theorem callExpression (hparams : f.params = []) (name : Token)
    (hname : name.lexeme = f.name.lexeme) (paren : Token) :
    Recurs f (treeFrames + callFrames) (treeFrames + max treeFrames callFrames) fun n c m =>
      eval (n + 2) c (.call (.reference name .global) paren []) m := by
  have hread (n : Nat) (c : Context) (m : Machine) (hm : m.Knows f)
      (hspares : c.Spares treeFrames) :
      eval (n + 1) c (.reference name .global) m = .done (.closure f) m := by
    have hget : m.store.get Machine.globals name = .ok (.closure f) := by
      rw [Store.get_globals, Store.getHere_eq_ok, hname]
      exact hm
    rw [eval, Context.guard_of_spares hspares]
    simp only [Machine.read, hget, Outcome.ofExcept]
  have hshort (n : Nat) (c : Context) (m : Machine) (hcall : c.InCall)
      (h : ¬ c.Spares treeFrames) :
      (eval (n + 1) c (.reference name .global) m).Overflows m 0 := by
    rw [eval]
    exact Context.guard_overflows hcall fun hspares => absurd hspares h
  refine deeper (after hread hshort ?_)
  exact call hparams paren

/-! The statements around the call. `k` is what the rules inside take of the fuel. -/

variable {k : Nat}

theorem expression {x : Expr Address} (h : Recurs f d e fun n c m => eval (n + k) c x m) :
    Recurs f (treeFrames + d) (treeFrames + e) fun n c m =>
      exec (n + k + 1) c (.expression x) m := by
  simp only [exec]
  exact (h.bind _).deeper

theorem first {st : Stmt Address} (h : Recurs f d e fun n c m => exec (n + k) c st m)
    (rest : List (Stmt Address)) :
    Recurs f d e fun n c m => execAll (n + k + 1) c (st :: rest) m := by
  simp only [execAll]
  exact h.bind _

theorem block {ss : List (Stmt Address)} (h : Recurs f d e fun n c m => execAll (n + k) c ss m) :
    Recurs f (treeFrames + (blockFrames + d)) (treeFrames + (blockFrames + e)) fun n c m =>
      exec (n + k + 1) c (.block ss) m := by
  simp only [exec]
  exact h.inside.deeper

/-- After a statement that only looks at a value. -/
theorem others {l : Literal} {rest : List (Stmt Address)}
    (h : Recurs f d e fun n c m => execAll (n + k + 2) c rest m) :
    Recurs f d (max (2 * treeFrames) e) fun n c m =>
      execAll (n + k + 3) c (.expression (.literal l) :: rest) m := by
  simp only [execAll]
  exact h.after (fun _ _ _ _ => exec_idle l) (fun _ _ _ => overflows_idle l)

/-- In the body of a loop whose condition holds. -/
theorem loop {body : Stmt Address} (h : Recurs f d e fun n c m => exec (n + k + 1) c body m) :
    Recurs f (treeFrames + d) (treeFrames + max treeFrames e) fun n c m =>
      exec (n + k + 3) c (.loop (.literal (.bool true)) body) m := by
  simp only [exec, execLoop]
  exact (after (fun _ _ _ _ => eval_literal _) (fun _ _ _ => overflows_literal _) (h.bind _)).deeper

/-- In the step of a loop whose condition holds and whose body only looks at a value. -/
theorem loopStep {l : Literal} {step : Stmt Address}
    (h : Recurs f d e fun n c m => exec (n + k + 2) c step m) :
    Recurs f (treeFrames + d) (treeFrames + max treeFrames (max (2 * treeFrames) e)) fun n c m =>
      exec (n + k + 4) c (.loopStep (.literal (.bool true)) (.expression (.literal l)) step) m := by
  simp only [exec, execLoop]
  exact (after (fun _ _ _ _ => eval_literal _) (fun _ _ _ => overflows_literal _)
    (after (fun _ _ _ _ => exec_idle l) (fun _ _ _ => overflows_idle l) (h.bind _))).deeper

end Recurs

theorem Outcome.Overflows.after_print {o : Outcome α} {m : Machine} {lines : Nat}
    (h : o.Overflows (m.print .nil) lines) : o.Overflows m (lines + 1) := by
  obtain ⟨paren, m', rfl, hprinted⟩ := h
  refine ⟨paren, m', rfl, hprinted.trans ?_⟩
  simp [Machine.print, List.replicate_succ]

theorem exec_print_nil {n : Nat} {c : Context} {m : Machine} (hn : 2 ≤ n)
    (h : c.Spares (2 * treeFrames)) :
    exec n c (.print (.literal .nil)) m = .done .normal (m.print .nil) := by
  obtain ⟨n, rfl⟩ := Nat.exists_eq_add_of_le' hn
  rw [exec, guard_literal .nil _ h]
  rfl

theorem overflows_print_nil {n : Nat} {c : Context} {m : Machine} (hcall : c.InCall)
    (h : ¬ c.Spares (2 * treeFrames)) :
    (exec (n + 2) c (.print (.literal .nil)) m).Overflows m 0 := by
  rw [exec]
  exact guard_literal_overflows .nil _ hcall h

/-- A function that prints `nil` and calls itself with `d` frames more does so as often as there are
frames to print. -/
theorem Recurs.overflows_body {f : Closure} {d e k : Nat} {st : Stmt Address}
    (hbody : f.body = [.print (.literal .nil), st])
    (hrec : Recurs f d e fun n c m => exec (n + k) c st m) (he : e ≤ d + 2 * treeFrames)
    {lines n : Nat} {c : Context} {m : Machine} (hcall : c.InCall) (hm : m.Knows f)
    (hless : ¬ c.Spares (d * lines + 2 * treeFrames))
    (henough : ∀ i < lines, c.Spares (d * i + 2 * treeFrames)) :
    (execAll (n + (k + 3) * (lines + 1)) c f.body m).Overflows m lines := by
  induction lines generalizing n c m with
  | zero =>
    rw [hbody, Nat.zero_add, Nat.mul_one, ← Nat.add_assoc, execAll]
    exact (overflows_print_nil hcall hless).bind _
  | succ lines ih =>
    have hfuel : n + (k + 3) * (lines + 1 + 1) = n + 1 + (k + 3) * (lines + 1) + k + 2 := by
      rw [Nat.mul_succ (k + 3) (lines + 1)]
      omega
    rw [hbody, hfuel, execAll, exec_print_nil (by omega) (henough 0 (Nat.succ_pos _))]
    refine Outcome.Overflows.after_print ?_
    have hrest := hrec.first []
    by_cases hspares : c.Spares e
    · refine hrest.enters hm hspares fun c' m' hcall' hhost htaken hm' _ => ?_
      have hshift (i : Nat) : c'.Spares (d * i + 2 * treeFrames) ↔
          c.Spares (d * (i + 1) + 2 * treeFrames) := by
        rw [Context.Spares, Context.Spares, hhost, htaken, Nat.mul_succ]
        omega
      exact ih hcall' hm' (mt (hshift lines).1 hless) fun i hi =>
        (hshift i).2 (henough (i + 1) (Nat.succ_lt_succ hi))
    · have hnone : lines = 0 := by
        by_contra hsome
        have hone := henough 1 (Nat.succ_lt_succ (Nat.pos_of_ne_zero hsome))
        rw [Nat.mul_one] at hone
        exact hspares (Nat.le_trans (Nat.add_le_add_left he _) hone)
      rw [hnone]
      exact hrest.overflows hcall hm hspares

namespace Session

/-- The function that prints `nil` and then carries out the statement. -/
def recursive (name : Token) (st : Stmt Address) : Closure :=
  ⟨0, name, [], [.print (.literal .nil), st], Machine.globals⟩

/-- The statement that calls a function takes so many frames before the body of the function. -/
def callingFrames : Nat := treeFrames + (treeFrames + callFrames)

/-- The declaration of the function. -/
theorem exec_recursive (n : Nat) {host : Host} (hhost : treeFrames ≤ host.frames) {name : Token}
    (st : Stmt Address) (hfree : new.machine.store.binds Machine.globals name.lexeme = false) :
    ∃ m, exec (n + 1) (context host) (.function name [] (recursive name st).body) new.machine =
        .done .normal m ∧
      m.Knows (recursive name st) ∧ m.printed = #[] := by
  have hspares : (context host).deeper.Spares 0 := hhost
  have hdefine := Machine.define_of_free (m := { new.machine with closures := 1 }) hfree
    (.closure (recursive name st))
  refine ⟨{ new.machine with
    closures := 1
    store := new.machine.store.add Machine.globals name.lexeme (.closure (recursive name st)) },
    ?_, ?_, rfl⟩
  · rw [exec, Context.guard_of_spares hspares]
    exact congrArg (Outcome.bind · fun _ m => .done Flow.normal m) hdefine
  · have hroot : Machine.globals.frame < new.machine.store.frames.size := by decide
    unfold Machine.Knows Store.read?
    rw [Store.frame_add hroot, if_pos rfl]
    exact List.lookup_cons_self

/-- As often as there are frames for it, a program prints `nil` that declares such a function and
calls it. Then it ends since there are no frames left. -/
theorem recursion_overflows (host : Host) (name use paren : Token) (lines : Nat)
    {st : Stmt Address} {d e k : Nat}
    (hfree : new.machine.store.binds Machine.globals name.lexeme = false)
    (huse : use.lexeme = name.lexeme)
    (hrec : Recurs (recursive name st) d e fun n c m => exec (n + k) c st m)
    (he : e ≤ d + 2 * treeFrames)
    (hless : host.frames < callingFrames + (d * lines + 2 * treeFrames))
    (henough : ∀ i < lines, callingFrames + (d * i + 2 * treeFrames) ≤ host.frames)
    (hsome : 0 < lines) :
    let program : List (Stmt Address) := [.function name [] (recursive name st).body,
      .expression (.call (.reference use .global) paren [])]
    Overflows host program ∧
      ∀ i, Prints host program (List.replicate i "nil") ↔ i ≤ lines := by
  intro program
  have hfirst := henough 0 hsome
  have hhost : treeFrames + (treeFrames + max treeFrames callFrames) ≤ host.frames := by
    simp only [callingFrames, treeFrames, callFrames] at hfirst ⊢
    omega
  obtain ⟨m, hdeclared, hm, hprinted⟩ := exec_recursive ((k + 3) * (lines + 1) + 2)
    (Nat.le_trans (by decide) hhost) st hfree
  have hcalls := (Recurs.callExpression (f := recursive name st) rfl use huse paren).expression
  have hover : (exec ((k + 3) * (lines + 1) + 3) (context host)
      (.expression (.call (.reference use .global) paren [])) m).Overflows m lines := by
    refine hcalls.enters (c := context host) hm hhost
      fun c' m' hcall hframes htaken hm' _ => ?_
    have hspares (i : Nat) : c'.Spares i ↔ callingFrames + i ≤ host.frames := by
      rw [Context.Spares, hframes, htaken]
      rfl
    have hbody := hrec.overflows_body (n := 0) rfl he hcall hm'
      (mt (hspares _).1 (Nat.not_le.2 hless)) fun i hi => (hspares _).2 (henough i hi)
    rwa [Nat.zero_add] at hbody
  obtain ⟨why, m', hstopped, hshown⟩ := hover
  have hrun : (new.interpret ((k + 3) * (lines + 1) + 3) host program).1 =
      ⟨.failed ⟨why, .stackOverflow⟩, m'.printed⟩ := by
    simp only [interpret, program, execEach, hdeclared, hstopped, Outcome.bind_done,
      Outcome.bind_stopped]
  have hfinished : (new.interpret ((k + 3) * (lines + 1) + 3) host program).1.verdict ≠
      .unfinished := by
    rw [hrun]
    simp
  refine ⟨⟨_, _, ⟨why, congrArg RunReport.verdict hrun⟩, ends_of_finished hfinished⟩,
    fun i => ?_⟩
  have hlines : (new.interpret ((k + 3) * (lines + 1) + 3) host program).1.lines =
      List.replicate lines "nil" := by
    rw [hrun, RunReport.lines, hshown, hprinted, List.map_append, List.map_replicate]
    rfl
  rw [prints_iff_of_finished hfinished, hlines, List.prefix_replicate_iff, List.length_replicate,
    and_iff_left rfl]

end Session
end Scriptlet

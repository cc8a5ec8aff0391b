import Scriptlet.Proofs.Parsing.Reports

/-! A parser that keeps count of what it is in. It counts up when it goes into a loop, a block or a
statement, and it counts down again however that ends. -/
namespace Scriptlet.Parse

/-- In how many loops of the same function, in how many blocks, and how deep. -/
structure Counters where
  loops : Nat
  blocks : Nat
  depth : Nat
deriving DecidableEq, Repr

namespace Counters

def zero : Counters := ⟨0, 0, 0⟩

def context (k : Counters) (room : Nat) : Context := ⟨k.loops != 0, k.blocks != 0, k.depth, room⟩

end Counters

/-- What is done to the counters on the way in and on the way out; who leaves may have kept what
they were on the way in. -/
structure Enclosure where
  enter (k : Counters) : Counters
  leave (kept k : Counters) : Counters
  leave_enter (k : Counters) : leave k (enter k) = k

namespace Enclosure

def statement : Enclosure where
  enter k := { k with depth := k.depth + 1 }
  leave _ k := { k with depth := k.depth - 1 }
  leave_enter _ := rfl

def loop : Enclosure where
  enter k := { k with loops := k.loops + 1 }
  leave _ k := { k with loops := k.loops - 1 }
  leave_enter _ := rfl

def block : Enclosure where
  enter k := { k with blocks := k.blocks + 1 }
  leave _ k := { k with blocks := k.blocks - 1 }
  leave_enter _ := rfl

/-- Loops around a function do not extend into its body. -/
def function : Enclosure where
  enter k := { k with loops := 0, depth := k.depth + 1 }
  leave kept k := { k with loops := kept.loops, depth := k.depth - 1 }
  leave_enter _ := rfl

end Enclosure

/-- A jump statement that was made, and in how many loops the parser was then. -/
structure Site where
  jump : Jump
  keyword : Token
  loops : Nat
deriving DecidableEq, Repr

/-- A call of the rule for declarations: the parser as it was before, and what came of it. -/
structure Call where
  before : State
  entered : Counters
  after : Result (Option (Stmt Unit))
  left : Counters

structure Walker where
  state : State
  counters : Counters
  calls : List Call

/-- What comes of a rule, and, if it succeeds, the jump statements in its value. -/
inductive Walked (α : Type) where
  | ok (value : α) (jumps : List Site) (w : Walker)
  | bad (w : Walker)
  | halt (cause : Halt) (w : Walker)

def Diagnostic.stray? (d : Diagnostic) : Option (Jump × Token) :=
  match d.cause with
  | .strayJump j => some (j, d.token)
  | _ => none

def Site.stray? (site : Site) : Option (Jump × Token) :=
  if site.loops = 0 then some (site.jump, site.keyword) else none

variable {α β : Type}

namespace Walked

def walker : Walked α → Walker
  | ok _ _ w | bad w | halt _ w => w

def jumps : Walked α → List Site
  | ok _ jumps _ => jumps
  | bad _ | halt _ _ => []

/-- What is seen of it without the counters. -/
def result : Walked α → Result α
  | ok a _ w => .ok a w.state
  | bad w => .bad w.state
  | halt cause w => .halt cause w.state

/-- More jumps are in the value than were made just now. -/
def also (made : List Site) : Walked α → Walked α
  | ok a jumps w => ok a (made ++ jumps) w
  | bad w => bad w
  | halt cause w => halt cause w

/-- Puts the counters to what they are on the way out. -/
def leaving (e : Enclosure) (kept : Counters) : Walked α → Walked α
  | ok a jumps w => ok a jumps { w with counters := e.leave kept w.counters }
  | bad w => bad { w with counters := e.leave kept w.counters }
  | halt cause w => halt cause { w with counters := e.leave kept w.counters }

/-- What a walker leaves when it started like this. The counters are what they were, and so they
are after each call on the way; a call that halts halts everything. No report is taken back, and
each jump statement that stands in no loop has been reported. -/
structure Later (w : Walker) (x : Walked α) : Prop where
  counters : x.walker.counters = w.counters
  calls : ∃ made, x.walker.calls = w.calls ++ made ∧ ∀ c ∈ made, c.left = c.entered ∧
    ∀ cause r, c.after = .halt cause r → x.result = .halt cause r
  reports : ∃ added, x.walker.state.reports = w.state.reports ++ added ∧
    (x.jumps.filterMap Site.stray?).Sublist (added.filterMap Diagnostic.stray?)

end Walked

/-- A rule of the grammar. -/
structure Walk (α : Type) where
  run : Walker → Walked α
  later (w : Walker) : (run w).Later w

namespace Walked.Later

variable {w w' : Walker} {x : Walked α} {jumps : List Site}

/-- Nothing but the state has changed, and no jump was made. -/
theorem of_state (hcounters : x.walker.counters = w.counters) (hcalls : x.walker.calls = w.calls)
    (hreports : w.state.reports <+: x.walker.state.reports) (hjumps : x.jumps = []) :
    x.Later w := by
  obtain ⟨added, hadded⟩ := hreports
  refine ⟨hcounters, ⟨[], by simp [hcalls], by simp⟩, added, hadded.symm, ?_⟩
  simp [hjumps]

theorem trans {a : α} {y : Walked β} (h : (ok a jumps w').Later w) (h' : y.Later w') :
    (y.also jumps).Later w := by
  obtain ⟨made, hcalls, hmade⟩ := h.calls
  obtain ⟨made', hcalls', hmade'⟩ := h'.calls
  obtain ⟨added, hreports, hadded⟩ := h.reports
  obtain ⟨added', hreports', hadded'⟩ := h'.reports
  have hwalker : (y.also jumps).walker = y.walker := by cases y <;> rfl
  have hresult : (y.also jumps).result = y.result := by cases y <;> rfl
  simp only [walker] at hcalls hreports
  refine ⟨?_, ⟨made ++ made', ?_, fun c hc => ?_⟩, added ++ added', ?_, ?_⟩
  · rw [hwalker]
    exact h'.counters.trans h.counters
  · rw [hwalker, hcalls', hcalls, List.append_assoc]
  · rw [hresult]
    rcases List.mem_append.1 hc with hc | hc
    · refine ⟨(hmade c hc).1, fun cause r hhalt => ?_⟩
      cases (hmade c hc).2 cause r hhalt
    · exact hmade' c hc
  · rw [hwalker, hreports', hreports, List.append_assoc]
  · cases y with
    | ok b jumps' w'' =>
      simp only [also, Walked.jumps, List.filterMap_append]
      exact hadded.append hadded'
    | bad w'' | halt cause w'' => exact List.nil_sublist _

/-- A rule that fails, followed by something that reports more at most. -/
theorem of_bad {y : Walked β} (h : (bad w' : Walked α).Later w)
    (hcounters : y.walker.counters = w'.counters) (hcalls : y.walker.calls = w'.calls)
    (hreports : w'.state.reports <+: y.walker.state.reports) (hjumps : y.jumps = []) :
    y.Later w := by
  obtain ⟨made, hmade, hends⟩ := h.calls
  obtain ⟨added, hadded, -⟩ := h.reports
  obtain ⟨more, hmore⟩ := hreports
  simp only [walker] at hmade hadded
  refine ⟨hcounters.trans h.counters, ⟨made, hcalls.trans hmade, fun c hc => ?_⟩, added ++ more,
    ?_, ?_⟩
  · refine ⟨(hends c hc).1, fun cause r hhalt => ?_⟩
    cases (hends c hc).2 cause r hhalt
  · rw [← hmore, hadded, List.append_assoc]
  · simp [hjumps]

theorem of_halt {cause : Halt} (h : (halt cause w' : Walked α).Later w) :
    (halt cause w' : Walked β).Later w := by
  obtain ⟨made, hmade, hends⟩ := h.calls
  refine ⟨h.counters, ⟨made, hmade, fun c hc => ⟨(hends c hc).1, fun why r hhalt => ?_⟩⟩, h.reports⟩
  obtain ⟨rfl, rfl⟩ := Result.halt.inj ((hends c hc).2 why r hhalt)
  rfl

theorem leaving (e : Enclosure) (h : x.Later { w with counters := e.enter w.counters }) :
    (x.leaving e w.counters).Later w := by
  have hcounters :
      (x.leaving e w.counters).walker.counters = e.leave w.counters x.walker.counters := by
    cases x <;> rfl
  have hcalls : (x.leaving e w.counters).walker.calls = x.walker.calls := by cases x <;> rfl
  have hstate : (x.leaving e w.counters).walker.state = x.walker.state := by cases x <;> rfl
  have hresult : (x.leaving e w.counters).result = x.result := by cases x <;> rfl
  have hjumps : (x.leaving e w.counters).jumps = x.jumps := by cases x <;> rfl
  refine ⟨?_, ?_, ?_⟩
  · rw [hcounters, h.counters]
    exact e.leave_enter w.counters
  · rw [hcalls, hresult]
    exact h.calls
  · rw [hstate, hjumps]
    exact h.reports

end Walked.Later

namespace Walk

protected def pure (a : α) : Walk α where
  run w := .ok a [] w
  later _ := .of_state rfl rfl (List.prefix_refl _) rfl

protected def bind (t : Walk α) (f : α → Walk β) : Walk β where
  run w :=
    match t.run w with
    | .ok a jumps w => ((f a).run w).also jumps
    | .bad w => .bad w
    | .halt cause w => .halt cause w
  later w := by
    have ht := t.later w
    cases hrun : t.run w with
    | ok a jumps w' =>
      rw [hrun] at ht
      exact ht.trans ((f a).later w')
    | bad w' =>
      rw [hrun] at ht
      exact ht.of_bad rfl rfl (List.prefix_refl _) rfl
    | halt cause w' =>
      rw [hrun] at ht
      exact ht.of_halt

instance : Monad Walk where
  pure := Walk.pure
  bind := Walk.bind

theorem run_bind (t : Walk α) (f : α → Walk β) (w : Walker) :
    (t >>= f).run w = match t.run w with
      | .ok a jumps w => ((f a).run w).also jumps
      | .bad w => .bad w
      | .halt cause w => .halt cause w := rfl

def halt (cause : Halt) : Walk α where
  run w := .halt cause w
  later _ := .of_state rfl rfl (List.prefix_refl _) rfl

/-- A rule that does not look at the counters and makes no jump. -/
def lift (p : Parser α) (hp : Elementary p) : Walk α where
  run w :=
    match p w.state with
    | .ok a state => .ok a [] { w with state }
    | .bad state => .bad { w with state }
    | .halt cause state => .halt cause { w with state }
  later w := by
    have hreports := hp.reporting w.state
    cases hresult : p w.state with
    | ok a s | halt cause s =>
      rw [hresult] at hreports
      exact .of_state rfl rfl hreports rfl
    | bad s =>
      rw [hresult] at hreports
      exact .of_state rfl rfl hreports.1 rfl

theorem run_lift (p : Parser α) (hp : Elementary p) (w : Walker) :
    (lift p hp).run w = match p w.state with
      | .ok a state => .ok a [] { w with state }
      | .bad state => .bad { w with state }
      | .halt cause state => .halt cause { w with state } := rfl

theorem lift_eq_ok {p : Parser α} {hp : Elementary p} {w w' : Walker} {a : α} {sites : List Site}
    (h : (lift p hp).run w = .ok a sites w') : p w.state = .ok a w'.state ∧ sites = [] := by
  rw [run_lift] at h
  cases hresult : p w.state with
  | bad s | halt cause s =>
    rw [hresult] at h
    cases h
  | ok b s =>
    rw [hresult] at h
    obtain ⟨rfl, rfl, rfl⟩ := Walked.ok.inj h
    exact ⟨rfl, rfl⟩

def advance : Walk Token := lift _ .advance

def peek : Walk Kind := lift _ .peek

def accept (kinds : List Kind) : Walk (Option Token) := lift _ (.accept kinds)

def expect (slot : Slot) : Walk Token := lift _ (.expect slot)

/-- Goes into something, and comes out of it however that ends. -/
def within (e : Enclosure) (t : Walk α) : Walk α where
  run w := (t.run { w with counters := e.enter w.counters }).leaving e w.counters
  later _ := (t.later _).leaving e

theorem run_within (e : Enclosure) (t : Walk α) (w : Walker) :
    (within e t).run w =
      (t.run { w with counters := e.enter w.counters }).leaving e w.counters := rfl

def guardDepth : Walk Unit where
  run w := if maxNesting < w.counters.depth then .halt .nesting w else .ok () [] w
  later w := by
    split
    · exact .of_state rfl rfl (List.prefix_refl _) rfl
    · exact .of_state rfl rfl (List.prefix_refl _) rfl

/-- What a jump reports before its end is looked for. -/
def reportStray (j : Jump) (keyword : Token) (w : Walker) : State :=
  if w.counters.loops = 0 then w.state.report keyword (.strayJump j) else w.state

theorem reports_reportStray (j : Jump) (keyword : Token) (w : Walker) :
    ∃ added, (reportStray j keyword w).reports = w.state.reports ++ added ∧
      added.filterMap Diagnostic.stray? =
        [(⟨j, keyword, w.counters.loops⟩ : Site)].filterMap Site.stray? := by
  unfold reportStray
  split
  next h => exact ⟨_, rfl, by simp [Diagnostic.stray?, Site.stray?, h]⟩
  next h => exact ⟨[], by simp, by simp [Site.stray?, h]⟩

def jumpStatement (j : Jump) (keyword : Token) : Walk (Stmt Unit) where
  run w :=
    match Parse.expect (.jumpEnd j) (reportStray j keyword w) with
    | .ok _ state => .ok (.jump j keyword) [⟨j, keyword, w.counters.loops⟩] { w with state }
    | .bad state => .bad { w with state }
    | .halt cause state => .halt cause { w with state }
  later w := by
    obtain ⟨added, hadded, hstray⟩ := reports_reportStray j keyword w
    have hbefore : w.state.reports <+: (reportStray j keyword w).reports :=
      hadded ▸ List.prefix_append _ _
    have hreports := (Elementary.expect (.jumpEnd j)).reporting (reportStray j keyword w)
    cases hresult : Parse.expect (.jumpEnd j) (reportStray j keyword w) with
    | ok t s =>
      rw [hresult] at hreports
      obtain ⟨more, hmore⟩ := hreports
      refine ⟨rfl, ⟨[], by simp [Walked.walker], by simp⟩, added ++ more, ?_, ?_⟩
      · simp only [Walked.walker]
        rw [← hmore, hadded, List.append_assoc]
      · simp only [Walked.jumps]
        rw [List.filterMap_append, hstray]
        exact List.sublist_append_left _ _
    | bad s =>
      rw [hresult] at hreports
      exact .of_state rfl rfl (hbefore.trans hreports.1) rfl
    | halt cause s =>
      rw [hresult] at hreports
      exact .of_state rfl rfl (hbefore.trans hreports) rfl

theorem run_jumpStatement (j : Jump) (keyword : Token) (w : Walker) :
    (jumpStatement j keyword).run w =
      match Parse.expect (.jumpEnd j) (reportStray j keyword w) with
      | .ok _ state => .ok (.jump j keyword) [⟨j, keyword, w.counters.loops⟩] { w with state }
      | .bad state => .bad { w with state }
      | .halt cause state => .halt cause { w with state } := rfl

/-- Starts calm and recovers from an error inside, to where a statement may start in as many blocks
as the parser is in by then. -/
def recovering (t : Walk α) : Walk (Option α) where
  run w :=
    match t.run { w with state := w.state.calm } with
    | .ok a jumps w => .ok (some a) jumps w
    | .bad w =>
      match w.state.recover (w.counters.blocks != 0) 0 with
      | some state => .ok none [] { w with state }
      | none => .halt .outOfTokens w
    | .halt cause w => .halt cause w
  later w := by
    have hcalm := t.later { w with state := w.state.calm }
    have ht : (t.run { w with state := w.state.calm }).Later w :=
      ⟨hcalm.counters, hcalm.calls, hcalm.reports⟩
    cases hrun : t.run { w with state := w.state.calm } with
    | ok a jumps w' =>
      rw [hrun] at ht
      have hsame := ht.trans (Walk.later (Walk.pure (some a)) w')
      simpa only [Walk.pure, Walked.also, List.append_nil] using hsame
    | halt cause w' =>
      rw [hrun] at ht
      exact ht.of_halt
    | bad w' =>
      rw [hrun] at ht
      dsimp only
      cases hr : w'.state.recover (w'.counters.blocks != 0) 0 with
      | none => exact ht.of_bad rfl rfl (List.prefix_refl _) rfl
      | some r => exact ht.of_bad rfl rfl (State.reports_recover hr) rfl

theorem run_recovering (t : Walk α) (w : Walker) :
    (recovering t).run w = match t.run { w with state := w.state.calm } with
      | .ok a jumps w => .ok (some a) jumps w
      | .bad w =>
        match w.state.recover (w.counters.blocks != 0) 0 with
        | some state => .ok none [] { w with state }
        | none => .halt .outOfTokens w
      | .halt cause w => .halt cause w := rfl

/-- Keeps a record of the call. -/
def recorded (t : Walk (Option (Stmt Unit))) : Walk (Option (Stmt Unit)) where
  run w :=
    let x := t.run w
    let call : Call := ⟨w.state, w.counters, x.result, x.walker.counters⟩
    match x with
    | .ok d jumps w => .ok d jumps { w with calls := w.calls ++ [call] }
    | .bad w => .bad { w with calls := w.calls ++ [call] }
    | .halt cause w => .halt cause { w with calls := w.calls ++ [call] }
  later w := by
    have ht := t.later w
    obtain ⟨made, hmade, hends⟩ := ht.calls
    have hcall (c : Call) (hc : c ∈ made ++
        [(⟨w.state, w.counters, (t.run w).result, (t.run w).walker.counters⟩ : Call)]) :
        c.left = c.entered ∧
          ∀ cause r, c.after = .halt cause r → (t.run w).result = .halt cause r := by
      rcases List.mem_append.1 hc with hc | hc
      · exact hends c hc
      · obtain rfl := List.mem_singleton.1 hc
        exact ⟨ht.counters, fun _ _ hhalt => hhalt⟩
    cases hrun : t.run w with
    | ok d jumps w' | bad w' | halt cause w' =>
      rw [hrun] at ht hmade hcall
      refine ⟨ht.counters, ⟨_, ?_, hcall⟩, ht.reports⟩
      simp only [Walked.walker] at hmade ⊢
      rw [hmade, List.append_assoc]

theorem run_recorded (t : Walk (Option (Stmt Unit))) (w : Walker) :
    (recorded t).run w =
      let call : Call := ⟨w.state, w.counters, (t.run w).result, (t.run w).walker.counters⟩
      match t.run w with
      | .ok d jumps w => .ok d jumps { w with calls := w.calls ++ [call] }
      | .bad w => .bad { w with calls := w.calls ++ [call] }
      | .halt cause w => .halt cause { w with calls := w.calls ++ [call] } := rfl

end Walk
end Scriptlet.Parse

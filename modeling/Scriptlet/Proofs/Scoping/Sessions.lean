import Scriptlet.Proofs.Scoping.Fits

/-! Where addresses lead in the runs of a session. -/
namespace Scriptlet

variable {starts : Place → Task → Prop} {p : Place} {scopes : Scopes}

namespace Task

/-- All closures that the evaluation can get hold of have been declared. -/
def Declared (starts : Place → Task → Prop) (t : Task) : Prop :=
  t.machine.store.Declared starts ∧ match t with
    | call _ _ _ f vs m => f.Declared starts m.store ∧ ∀ v ∈ vs, v.Declared starts m.store
    | _ => True

variable {n : Nat} {c : Context} {m m' : Machine}

theorem declared_eval {e : Expr Address} {v : Value} (h : Located starts p scopes (.expr n c e m))
    (hm : m.store.Declared starts) (hdone : eval n c e m = .done v m') :
    m'.store.Declared starts ∧ v.Declared starts m'.store := by
  have hyields := (declaringEval starts n).eval h hm
  rwa [hdone] at hyields

theorem declared_exec {s : Stmt Address} {flow : Flow} (h : Located starts p scopes (.stmt n c s m))
    (hm : m.store.Declared starts) (hdone : exec n c s m = .done flow m') :
    m'.store.Declared starts := by
  have hyields := (declaringEval starts n).exec h hm
  rw [hdone] at hyields
  exact hyields.1

theorem Inside.declared {path : Place} {t t' : Task} (hroom : t.overflow? = none)
    (hin : t.Inside path t') (hloc : Located starts p scopes t) (h : t.Declared starts) :
    t'.Declared starts := by
  obtain ⟨hm, -⟩ := h
  cases hin with
  | grouping | assign | unary | condition | left | callee | argument | doLoop | expression
  | ifCondition | elseCondition | print | give | subject | initializer | loop | loopStep | first
  | loopCondition | doBody | otherwise | armCondition | topFirst => exact ⟨hm, trivial⟩
  | block => exact ⟨hm.grow, trivial⟩
  | yes he | no he => exact ⟨(declared_eval (hloc.inside hroom .condition) hm he).1, trivial⟩
  | right he => exact ⟨(declared_eval (hloc.inside hroom .left) hm he).1, trivial⟩
  | arguments he => exact ⟨(declared_eval (hloc.inside hroom .callee) hm he).1, trivial⟩
  | moreArguments he => exact ⟨(declared_eval (hloc.inside hroom .argument) hm he).1, trivial⟩
  | @call n c callee paren arguments m m' m'' v f vs hcallee hf harguments =>
    obtain ⟨hm', hv⟩ := declared_eval (hloc.inside hroom .callee) hm hcallee
    have hyields := (declaringEval starts n).evalAll (hloc.inside hroom (.arguments hcallee hf)) hm'
    have hkeeps := (keepingEval n).evalAll (fun _ => True) c.deeper arguments m'
    rw [harguments] at hyields hkeeps
    exact ⟨hyields.1, declared_callee (hv.mono hkeeps) hf, hyields.2⟩
  | ifThen he => exact ⟨(declared_eval (hloc.inside hroom .ifCondition) hm he).1, trivial⟩
  | thenBranch he | elseBranch he =>
    exact ⟨(declared_eval (hloc.inside hroom .elseCondition) hm he).1, trivial⟩
  | arms he => exact ⟨(declared_eval (hloc.inside hroom .subject) hm he).1, trivial⟩
  | others hs => exact ⟨declared_exec (hloc.inside hroom .first) hm hs, trivial⟩
  | topOthers hs => exact ⟨declared_exec (hloc.inside hroom .topFirst) hm hs, trivial⟩
  | loopBody he => exact ⟨(declared_eval (hloc.inside hroom .loopCondition) hm he).1, trivial⟩
  | step he hv hs | nextRound he hv hs =>
    have hcondition := (declared_eval (hloc.inside hroom .loopCondition) hm he).1
    exact ⟨declared_exec (hloc.inside hroom (.loopBody he hv)) hcondition hs, trivial⟩
  | nextStep he hv hs hflow hstep =>
    have hcondition := (declared_eval (hloc.inside hroom .loopCondition) hm he).1
    have hbody := declared_exec (hloc.inside hroom (.loopBody he hv)) hcondition hs
    exact ⟨declared_exec (hloc.inside hroom (.step he hv hs hflow)) hbody hstep, trivial⟩
  | doCondition hs => exact ⟨declared_exec (hloc.inside hroom .doBody) hm hs, trivial⟩
  | doRound hs hflow he =>
    have hbody := declared_exec (hloc.inside hroom .doBody) hm hs
    exact ⟨(declared_eval (hloc.inside hroom (.doCondition hs hflow)) hbody he).1, trivial⟩
  | armBody he | nextArm he =>
    exact ⟨(declared_eval (hloc.inside hroom .armCondition) hm he).1, trivial⟩

theorem Enters.declared {t t' : Task} {f : Closure} {scope : Scope} (hbody : t.Enters f scope t')
    (h : t.Declared starts) :
    t'.Declared starts ∧ (Value.closure f).Declared starts t.machine.store := by
  obtain ⟨hm, hcall⟩ := h
  cases hbody with
  | @intro n c paren f vs m m' harity hroom hparams =>
    obtain ⟨hf, hvs⟩ := hcall
    have hgrow : m.store.Before (m.enter f.scope).2.store := Store.keeps_grow _
    have hyields : (Machine.defineAll (m.enter f.scope).1 f.params vs (m.enter f.scope).2).Yields
        starts fun _ _ => True := by
      apply yields_defineAll
      · exact hm.grow
      · exact fun v hv => (hvs v hv).mono hgrow
    rw [hparams] at hyields
    exact ⟨⟨hyields.1, trivial⟩, hf f rfl⟩

end Task

/-- Every evaluation has its place in the program. -/
theorem Visited.located (hstart : ∀ p t, starts p t → t.Declared starts) {t : Task}
    (h : Visited starts t) : (∃ p scopes, Located starts p scopes t) ∧ t.Declared starts := by
  induction h with
  | start h => exact ⟨⟨_, _, .start h⟩, hstart _ _ h⟩
  | inside _ hroom hin ih =>
    obtain ⟨⟨p, scopes, hloc⟩, hdeclared⟩ := ih
    exact ⟨⟨_, _, hloc.inside hroom hin⟩, hin.declared hroom hloc hdeclared⟩
  | body _ hbody ih =>
    obtain ⟨⟨p, scopes, hloc⟩, hdeclared⟩ := ih
    obtain ⟨hdeclared', hf⟩ := hbody.declared hdeclared
    obtain ⟨q, outer, d, m, hd, hmakes, hbefore⟩ := hf _ rfl
    exact ⟨⟨_, _, hloc.body hbody hd hmakes hbefore⟩, hdeclared'⟩

/-- A program text, with the fuel and the host it is run with. -/
structure Submission where
  text : String
  fuel : Nat
  host : Host

namespace Session

/-- The session after these texts, whether they failed or not. A text that needs more fuel than it
got is followed by no other. -/
inductive Reached : List Submission → Session → Prop where
  | new : Reached [] Session.new
  | run {subs : List Submission} {s : Session} (h : Reached subs s) (sub : Submission)
    (hended : (s.run sub.fuel sub.host sub.text).1.verdict ≠ .unfinished) :
    Reached (subs ++ [sub]) (s.run sub.fuel sub.host sub.text).2

/-- The programs that the session runs, each at the place of its text. -/
inductive Starts (subs : List Submission) : Place → Task → Prop where
  | intro {earlier later : List Submission} {sub : Submission} {s : Session}
    {program : List (Stmt Unit)} (hsubs : subs = earlier ++ sub :: later)
    (hreached : Reached earlier s)
    (hparse : parse sub.host.frames (scan sub.text) = .ok ⟨program, []⟩)
    (hcheck : check program = []) :
    Starts subs [.text earlier.length]
      (.program sub.fuel (context sub.host) (resolve program) s.machine)

variable {subs : List Submission}

theorem declared_new : Session.new.store.Declared starts := by
  have hnatives (natives : List Native) (store : Store Value) (h : store.Declared starts) :
      (natives.foldl (fun (store : Store Value) f =>
        store.add Machine.globals f.name (.native f)) store).Declared starts := by
    induction natives generalizing store with
    | nil => exact h
    | cons f natives ih => exact ih _ (h.add (declared_of_ne fun _ => nofun))
  apply hnatives
  intro f z v hv
  rw [Store.frame_grow, Store.frame_of_le (Nat.zero_le f)] at hv
  cases hv

theorem declared_interpret {fuel : Nat} {host : Host} {s : Session} {program : List (Stmt Address)}
    (hs : s.store.Declared starts)
    (h : (execEach fuel (context host) program s.machine).Yields starts fun _ _ => True) :
    (s.interpret fuel host program).2.store.Declared starts := by
  unfold Session.interpret
  cases hrun : execEach fuel (context host) program s.machine with
  | outOfFuel m => exact hs
  | done _ m =>
    rw [hrun] at h
    exact h.1
  | stopped why m =>
    rw [hrun] at h
    cases why <;> exact h

theorem Reached.declared {earlier later : List Submission} {s : Session} (h : Reached earlier s)
    (hsubs : subs = earlier ++ later) : s.store.Declared (Starts subs) := by
  induction h generalizing later with
  | new => exact declared_new
  | @run earlier s hreached sub _ ih =>
    have hsubs' : subs = earlier ++ sub :: later := by simpa using hsubs
    have hs := ih hsubs'
    unfold Session.run Session.runTokens
    split
    next => exact hs
    next parsed hparse =>
      split
      · exact hs
      next hreports =>
        split
        · exact hs
        next hcheck =>
          obtain ⟨program, reports⟩ := parsed
          obtain rfl : reports = [] := Decidable.not_not.1 hreports
          have hstart := Starts.intro hsubs' hreached hparse (Decidable.not_not.1 hcheck)
          exact declared_interpret hs (declares_execEach (.start hstart) hs)

theorem Starts.declared {t : Task} (h : Starts subs p t) : t.Declared (Starts subs) := by
  cases h with
  | intro hsubs hreached => exact ⟨hreached.declared hsubs, trivial⟩

/-- A program is in no scope yet. -/
theorem Starts.fits {t : Task} (h : Starts subs p t) : t.Fits (Starts subs) p [] := by
  cases h with
  | intro hsubs hreached hparse hcheck =>
    exact ⟨⟨.top, rfl, trivial, trivial⟩, parsed_scoped hparse hcheck, fun _ => rfl⟩

end Session

/-- The address leads to a scope that was made at the place where the resolver found the name. -/
structure Finds (starts : Place → Task → Prop) (p : Place) (scopes : Scopes) (scope : Scope)
    (name : Token) (d : Int) (owner : Scope) : Prop where
  address : scopes.address name = .up d
  depth : p.scopes.length = scopes.length
  ancestor : scope.ancestor d = .ok owner
  created : ∃ q, p.scopes[d.toNat]? = some q ∧ Created starts q owner

/-- The use stands in the initializer of the variable that it means. -/
def InOwnInitializer (p : Place) (name : Token) (d : Int) : Prop :=
  d = 0 ∧ ∃ x ∈ p.initialized?, x.lexeme = name.lexeme

section

variable {scope owner : Scope} {s : Store Value} {name : Token} {d : Int}

theorem Env.finds (h : Env starts p scopes scope s) (haddress : .up d = scopes.address name) :
    ∃ owner, Finds starts p scopes scope name d owner := by
  obtain ⟨owner, q, hancestor, hq, hcreated, -⟩ := h.address haddress
  exact ⟨owner, haddress.symm, h.length, hancestor, q, hq, hcreated⟩

theorem Finds.binds_iff (hfinds : Finds starts p scopes scope name d owner)
    (h : Env starts p scopes scope s) :
    s.binds owner name.lexeme = false ↔ InOwnInitializer p name d := by
  obtain ⟨owner', q, hancestor, -, -, hbinds⟩ := h.address hfinds.address.symm
  obtain rfl := Except.ok.inj (hfinds.ancestor.symm.trans hancestor)
  exact hbinds

/-- The resolver rejects a read in an initializer of its own. -/
theorem InOwnInitializer.isPending (hown : InOwnInitializer p name d)
    (h : Env starts p scopes scope s) (haddress : scopes.address name = .up d) :
    scopes.isPending name = true := by
  obtain ⟨-, x, hx, hlexeme⟩ := hown
  have hpending := h.pending
  cases scopes with
  | nil => cases haddress
  | cons names outer =>
    have hfalse := (hpending name.lexeme).2 ⟨x, hx, hlexeme⟩
    simp [Scopes.isPending, hfalse]

theorem Finds.read_done {c : Context} {m : Machine}
    (hfinds : Finds starts p scopes c.scope name d owner)
    (h : Env starts p scopes c.scope m.store) (hpending : scopes.isPending name = false) :
    ∃ v, m.store.read? owner name.lexeme = some v ∧ m.read c name (.up d) = .done v m := by
  cases hv : m.store.read? owner name.lexeme with
  | none =>
    have hfree : m.store.binds owner name.lexeme = false := by
      change (m.store.read? owner name.lexeme).isSome = false
      rw [hv]
      rfl
    have hown := (hfinds.binds_iff h).1 hfree
    rw [hown.isPending h hfinds.address] at hpending
    cases hpending
  | some v =>
    refine ⟨v, rfl, ?_⟩
    rw [Machine.read, Store.getAt, hfinds.ancestor]
    simp only [Store.getHere, hv]
    rfl

theorem Finds.write {c : Context} {m : Machine}
    (hfinds : Finds starts p scopes c.scope name d owner)
    (h : Env starts p scopes c.scope m.store) (v : Value) :
    (m.write c name v (.up d) = .stopped (.error ⟨name, .undefined⟩) m ↔
        InOwnInitializer p name d) ∧
      (¬ InOwnInitializer p name d → m.write c name v (.up d) =
        .done v { m with store := m.store.set owner name.lexeme v }) := by
  rw [← hfinds.binds_iff h, Machine.write, Store.assignAt, hfinds.ancestor]
  cases hbinds : m.store.binds owner name.lexeme with
  | true => simp [Store.assignHere, hbinds, Machine.update]
  | false => simp [Store.assignHere, hbinds, Machine.update]

end

/-- Whatever texts a session runs, each of their evaluations has its place in a text. There, the use
of a variable with an address finds the scope of the block or function that declares the variable;
a read finds the variable bound, and an assignment does unless it is in the initializer. -/
theorem Session.addresses_sound (subs : List Submission) :
    (∀ t, Visited (Session.Starts subs) t →
      ∃ p scopes, Located (Session.Starts subs) p scopes t) ∧
    (∀ p scopes n c name d m, Located (Session.Starts subs) p scopes
        (.expr (n + 1) c (.reference name (.up d)) m) →
      ∃ owner, Finds (Session.Starts subs) p scopes c.scope name d owner ∧
        ∃ v, m.store.read? owner name.lexeme = some v ∧
          eval (n + 1) c (.reference name (.up d)) m = c.deeper.guard m fun _ => .done v m) ∧
    (∀ p scopes n c name value d m, Located (Session.Starts subs) p scopes
        (.expr (n + 1) c (.assign name value (.up d)) m) →
      ∃ owner, Finds (Session.Starts subs) p scopes c.scope name d owner ∧
        ∀ v m', c.deeper.stack.overflow? = none → eval n c.deeper value m = .done v m' →
          (eval (n + 1) c (.assign name value (.up d)) m =
              .stopped (.error ⟨name, .undefined⟩) m' ↔ InOwnInitializer p name d) ∧
          (¬ InOwnInitializer p name d → eval (n + 1) c (.assign name value (.up d)) m =
              .done v { m' with store := m'.store.set owner name.lexeme v })) := by
  have hfits {p : Place} {scopes : Scopes} {t : Task}
      (h : Located (Session.Starts subs) p scopes t) : t.Fits (Session.Starts subs) p scopes :=
    h.fits fun _ _ => Session.Starts.fits
  refine ⟨fun t h => (h.located fun _ _ => Session.Starts.declared).1, ?_, ?_⟩
  · intro p scopes n c name d m h
    obtain ⟨henv, ⟨haddress, hpending⟩, -⟩ := hfits h
    obtain ⟨owner, hfinds⟩ := henv.finds haddress
    obtain ⟨v, hv, hread⟩ := hfinds.read_done henv hpending
    refine ⟨owner, hfinds, v, hv, ?_⟩
    have hread : m.read c name (.up d) = .done v m := hread
    rw [eval, ← hread]
    rfl
  · intro p scopes n c name value d m h
    obtain ⟨henv, ⟨haddress, -⟩, -⟩ := hfits h
    obtain ⟨owner, hfinds⟩ := henv.finds haddress
    refine ⟨owner, hfinds, fun v m' hroom hvalue => ?_⟩
    have hassign : eval (n + 1) c (.assign name value (.up d)) m = m'.write c name v (.up d) := by
      simp only [eval, Context.guard_of_room hroom, hvalue, Outcome.bind_done,
        Machine.write_deeper]
    rw [hassign]
    exact hfinds.write (henv.eval hvalue) v

/-- The resolver lets a program assign to a variable in its own initializer, but that fails. -/
theorem Session.addresses_sound_initializer :
    let name (s : String) (column : Nat) : Token := ⟨.identifier, s, ⟨1, column⟩⟩
    let read : Expr Address := .reference (name "a" 21) (.up 0)
    let write : Expr Address := .assign (name "b" 17) read (.up 0)
    let sub : Submission := ⟨"\x7bvar a; var b = b = a;\x7d", 9, .still 99 0⟩
    let p : Place := [.initializer (name "b" 13), .child 0, .child 1, .block, .child 0, .text 0]
    ∃ scopes c m, Located (Session.Starts [sub]) p scopes (.expr 5 c write m) ∧
      InOwnInitializer p (name "b" 17) 0 ∧ (∃ v, eval 4 c.deeper read m = .done v m) ∧
      eval 5 c write m = .stopped (.error ⟨name "b" 17, .undefined⟩) m := by
  intro name read write sub p
  let program : List (Stmt Unit) :=
    [.block [.var (name "a" 6) none,
      .var (name "b" 13) (some (.assign (name "b" 17) (.reference (name "a" 21) ()) ()))]]
  have hscan : scan sub.text = [⟨.leftBrace, "\x7b", ⟨1, 1⟩⟩, ⟨.kwVar, "var", ⟨1, 2⟩⟩, name "a" 6,
      ⟨.semicolon, ";", ⟨1, 7⟩⟩, ⟨.kwVar, "var", ⟨1, 9⟩⟩, name "b" 13, ⟨.equal, "=", ⟨1, 15⟩⟩,
      name "b" 17, ⟨.equal, "=", ⟨1, 19⟩⟩, name "a" 21, ⟨.semicolon, ";", ⟨1, 22⟩⟩,
      ⟨.rightBrace, "\x7d", ⟨1, 23⟩⟩, ⟨.eof, "", ⟨1, 24⟩⟩] := by decide +kernel
  have hparse : parse sub.host.frames (scan sub.text) = .ok ⟨program, []⟩ := by
    rw [hscan]
    cbv
  have hcheck : check program = [] := rfl
  have hresolve : resolve program =
      [.block [.var (name "a" 6) none, .var (name "b" 13) (some write)]] := rfl
  have hstart : Session.Starts [sub] [.text 0]
      (.program 9 (context sub.host) (resolve program) new.machine) :=
    .intro (rfl : [sub] = [] ++ sub :: []) .new hparse hcheck
  rw [hresolve] at hstart
  have hlist := ((Located.start hstart).inside rfl .topFirst).inside rfl .block
  have hwrite := ((hlist.inside rfl (.others rfl)).inside rfl .first).inside rfl .initializer
  have hread := hwrite.inside rfl .assign
  have hown : InOwnInitializer p (name "b" 17) 0 := ⟨rfl, name "b" 13, rfl, rfl⟩
  obtain ⟨_, _, v, _, hv⟩ := (Session.addresses_sound [sub]).2.1 _ _ _ _ _ _ _ hread
  obtain ⟨_, _, hassign⟩ := (Session.addresses_sound [sub]).2.2 _ _ _ _ _ _ _ _ hwrite
  have hv := hv.trans (Context.guard_of_room rfl)
  exact ⟨_, _, _, hwrite, hown, ⟨v, hv⟩, (hassign v _ rfl hv).1.2 hown⟩

end Scriptlet

import Scriptlet.Proofs.Evaluation.Stops
import Scriptlet.Proofs.Interpreter.Faithful
import Scriptlet.Proofs.Interpreter.Sound

/-! Whatever the interpreter runs and however that ends, its scopes are in order afterwards. -/
namespace Scriptlet

namespace Interpreter

/-- The second interpreter is the first one after something: it is in the same scope, and each scope
that was there is inside the same one as before and binds all names that it did. If the scopes were
in order, they are, and outward from each there is an end and no repetition. -/
structure Preserved (s s' : Interpreter) : Prop where
  scope : s'.scope = s.scope
  globals : s'.globals = s.globals
  kept (i : Nat) (h : i < s.scopes.length) : s'.scopes[i]? = s.scopes[i]?
  enclosing (i : Nat) (h : i < s.scopes.length) : s'.forest.enclosing? i = s.forest.enclosing? i
  names (i : Nat) (z : String) (h : (s.machine.store.frame i).binds z = true) :
    (s'.machine.store.frame i).binds z = true
  sound (h : s.Sound) : s'.Sound
  chains (h : s.Sound) (scope : Scope) (hscope : scope ∈ s'.scopes) :
    s'.forest.Chain scope.frame scope.frames ∧ scope.frames.Nodup

theorem Later.preserved {s s' : Interpreter} (h : s.Later s') (hsound : s.Sound → s'.Sound) :
    s.Preserved s' := by
  have hkept (i : Nat) (hi : i < s.scopes.length) : s'.scopes[i]? = s.scopes[i]? := by
    obtain ⟨more, hmore⟩ := h.scopes
    rw [← hmore, List.getElem?_append_left hi]
  refine ⟨h.scope, h.globals, hkept, fun i hi => ?_, h.store.gain, hsound,
    fun hs scope hscope => ?_⟩
  · unfold Forest.enclosing? forest
    rw [hkept i hi]
  · obtain ⟨hchain, hfall, -⟩ := (hsound hs).forest.ordered.chain hscope
    exact ⟨hchain, hfall.imp Nat.ne_of_gt⟩

end Interpreter

theorem Step.Safe.preserved {α : Type} {t : Step α} {V : List Scope → α → Prop}
    (h : ∀ scopes, t.Safe scopes V) (s : Interpreter) : s.Preserved (t.run s).state :=
  (t.later s).preserved fun hs => (h s.scopes s hs (List.prefix_refl _)).1

namespace Session

/-- The interpreter of a session between two texts, with all scopes made so far. -/
def interpreter (s : Session) (scopes : List Scope) : Interpreter :=
  ⟨s.machine, scopes, Machine.globals, Machine.globals⟩

theorem sound_new : (new.interpreter [Machine.globals]).Sound := by
  refine ⟨⟨rfl, fun i scope h => ?_, fun n outer h => ?_, fun n z v hv => ?_⟩, rfl,
    List.mem_singleton_self _, List.mem_singleton_self _⟩
  · cases i with
    | zero => exact congrArg Scope.frame (Option.some.inj h).symm
    | succ i => cases h
  · cases List.mem_singleton.1 h
  · cases n with
    | succ n =>
      rw [Store.frame_of_le (Nat.succ_le_succ (Nat.zero_le n))] at hv
      cases hv
    | zero =>
      have hnatives : List.lookup z [("typeof", Value.native .typeof), ("clock", .native .clock)] =
          some v := hv
      rw [Frame.lookup_cons, Frame.lookup_cons] at hnatives
      split at hnatives
      · exact held_of_ne fun g => by simp [← Option.some.inj hnatives]
      · split at hnatives
        · exact held_of_ne fun g => by simp [← Option.some.inj hnatives]
        · cases hnatives

variable {s : Session} {scopes : List Scope}

/-- The machine that a program leaves has a printed record of its own, which is not looked at. -/
theorem sound_ofMachine {i : Interpreter} (h : i.Sound) (hscope : i.scope = Machine.globals) :
    ((ofMachine i.machine).interpreter i.scopes).Sound := by
  have hmem : Machine.globals ∈ i.scopes := hscope ▸ h.scope_mem
  exact ⟨⟨h.forest.size, h.forest.numbered, h.forest.outer, h.forest.held⟩, rfl, hmem, hmem⟩

theorem sound_interpret (fuel : Nat) (host : Host) (program : List (Stmt Address))
    (hs : (s.interpreter scopes).Sound) :
    ∃ scopes', scopes <+: scopes' ∧ s.store.Before (s.interpret fuel host program).2.store ∧
      ((s.interpret fuel host program).2.interpreter scopes').Sound := by
  let t := Interpreter.execEach fuel (.start host) program
  have hfollows : (t.run (s.interpreter scopes)).outcome =
      execEach fuel (context host) program s.machine :=
    follows_execEach fuel (.start host) program _ rfl
  have hlater := t.later (s.interpreter scopes)
  have hsound : (t.run (s.interpreter scopes)).state.Sound :=
    (safe_execEach fuel scopes (.start host) program _ hs (List.prefix_refl _)).1
  unfold interpret
  rw [← hfollows]
  cases hrun : t.run (s.interpreter scopes) with
  | cut i => exact ⟨scopes, List.prefix_refl _, Store.Keeps.refl _ _, hs⟩
  | done _ i =>
    rw [hrun] at hlater hsound
    exact ⟨i.scopes, hlater.scopes, hlater.store, sound_ofMachine hsound hlater.scope⟩
  | stopped why i =>
    rw [hrun] at hlater hsound
    refine ⟨i.scopes, hlater.scopes, ?_⟩
    cases why <;> exact ⟨hlater.store, sound_ofMachine hsound hlater.scope⟩

theorem sound_run (fuel : Nat) (host : Host) (text : String) (hs : (s.interpreter scopes).Sound) :
    ∃ scopes', scopes <+: scopes' ∧ s.store.Before (s.run fuel host text).2.store ∧
      ((s.run fuel host text).2.interpreter scopes').Sound := by
  have hsame := And.intro (Store.Keeps.refl (fun _ => True) s.store) hs
  unfold run runTokens
  split
  · exact ⟨scopes, List.prefix_refl _, hsame⟩
  · split
    · exact ⟨scopes, List.prefix_refl _, hsame⟩
    · split
      · exact ⟨scopes, List.prefix_refl _, hsame⟩
      · exact sound_interpret fuel host _ hs

end Session

namespace Interpreter

/-- Whatever tree is run, whatever its addresses are and whatever comes of it, the interpreter does
what evaluation does, and is preserved. Searches from a scope go through the scopes around it, of
which there is a last one. However the texts of a session ended, its scopes are in order. -/
theorem scopes_preserved (n : Nat) (k : Stack) (s : Interpreter) :
    (∀ e : Expr Address, let r := (eval n k e).run s
      s.Preserved r.state ∧ (s.globals = Machine.globals →
        r.outcome = Scriptlet.eval n ⟨s.scope, k⟩ e s.machine)) ∧
    (∀ st : Stmt Address, let r := (exec n k st).run s
      s.Preserved r.state ∧ (s.globals = Machine.globals →
        r.outcome = Scriptlet.exec n ⟨s.scope, k⟩ st s.machine)) ∧
    (∀ (scope : Scope) (name : String) (d : Nat),
      (s.machine.store.find? name scope).map Scope.frame =
          scope.frames.find? (fun i => (s.machine.store.frame i).binds name) ∧
        (scope.up? d).map Scope.frame = scope.frames[d]?) ∧
    (Session.new.interpreter [Machine.globals]).Sound ∧
    (∀ (session : Session) (scopes : List Scope) (fuel : Nat) (host : Host) (text : String),
      (session.interpreter scopes).Sound → ∃ scopes', scopes <+: scopes' ∧
        session.store.Before (session.run fuel host text).2.store ∧
        ((session.run fuel host text).2.interpreter scopes').Sound) := by
  refine ⟨fun e => ⟨?_, ?_⟩, fun st => ⟨?_, ?_⟩, fun scope name d => ?_, Session.sound_new,
    fun session scopes fuel host text => Session.sound_run fuel host text⟩
  · exact Step.Safe.preserved (fun scopes => (safeEval n).eval scopes k e) s
  · exact (followingEval n).eval k e s
  · exact Step.Safe.preserved (fun scopes => (safeEval n).exec scopes k st) s
  · exact (followingEval n).exec k st s
  · exact ⟨Store.frame_find _ name scope, Scope.frame_up scope d⟩

/-- A block that no program has: after its variable, it goes further outward than there are
scopes. -/
theorem scopes_preserved_block :
    let name : Token := ⟨.identifier, "a", ⟨1, 1⟩⟩
    let block : Stmt Address := .block [.var name none, .expression (.reference name (.up 7))]
    let host : Host := .still 99 0
    let s := Session.new.interpreter [Machine.globals]
    let r := (exec 9 (.start host) block).run s
    s.Sound ∧ s.globals = Machine.globals ∧ r.state.scopes = [.root 0, .inner 1 (.root 0)] ∧
      (Scriptlet.exec 9 ⟨s.scope, .start host⟩ block s.machine).stop? =
        some (.fault (.distance .tooFar)) ∧
      s.Preserved r.state ∧ r.state.Sound ∧
      ∃ scopes, ((Session.new.run 9 host "a;").2.interpreter scopes).Sound := by
  intro name block host s r
  obtain ⟨-, hexec, -, hnew, hrun⟩ := scopes_preserved 9 (.start host) s
  obtain ⟨hpreserved, -⟩ := hexec block
  obtain ⟨scopes, -, -, hscopes⟩ := hrun Session.new [Machine.globals] 9 host "a;" hnew
  exact ⟨hnew, rfl, rfl, rfl, hpreserved, hpreserved.sound hnew, scopes, hscopes⟩

end Interpreter
end Scriptlet

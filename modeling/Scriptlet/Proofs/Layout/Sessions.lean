import Mathlib.Data.List.Forall2
import Scriptlet.Proofs.Layout.Parsing
import Scriptlet.Proofs.Layout.Resolving
import Scriptlet.Proofs.Layout.Running
import Scriptlet.Proofs.Scoping.Sessions

/-! A session on texts and on the same texts in another layout. -/
namespace Scriptlet

/-- No token stands anywhere: what is left of a program besides its layout. -/
def Layout.bare : Layout := fun _ => ⟨0, 0⟩

variable (l : Layout)

def Verdict.moved : Verdict → Verdict
  | success => success
  | badSyntax reports => badSyntax (reports.map (Diagnostic.moved l))
  | badScopes reports => badScopes (reports.map (ScopeReport.moved l))
  | failed e => failed (e.moved l)
  | aborted f => aborted f
  | garbled f => garbled f
  | unfinished => unfinished

def RunReport.moved (r : RunReport) : RunReport :=
  ⟨r.verdict.moved l, r.printed.map (Value.moved l)⟩

/-- Of a program that did not run. -/
theorem RunReport.moved_silent (v : Verdict) :
    RunReport.moved l ⟨v, #[]⟩ = ⟨v.moved l, #[]⟩ := by
  simp [moved]

variable {l}

theorem execEach_moved (before : Past) (fuel : Nat) (c : Context) (ss : List (Stmt Address))
    (m : Machine) :
    execEach fuel (c.moved l before) (Stmt.movedAll l ss) (m.moved l before) =
      (execEach fuel c ss m).moved l before id := by
  induction ss generalizing m with
  | nil => rfl
  | cons s ss ih =>
    exact Outcome.bind_moved ((movingEval l before fuel).exec c s m) fun _ m => ih m

namespace Session

def moved (l : Layout) (s : Session) : Session := ⟨s.store.mapped (Value.moved l), s.closures⟩

theorem machine_moved (s : Session) : (s.moved l).machine = s.machine.moved l .none := by
  simp [machine, moved, Machine.moved, Past.none]

/-- Natives stand in no text. -/
theorem new_moved : new.moved l = new := by
  have hadd (f : Native) (s : Store Value) :
      (s.add Machine.globals f.name (.native f)).mapped (Value.moved l) =
        (s.mapped (Value.moved l)).add Machine.globals f.name (.native f) :=
    (s.add_mapped (Value.moved l) Machine.globals f.name (.native f)).symm
  have hempty : Store.empty.grow.mapped (Value.moved l) = Store.empty.grow := by
    rw [← Store.grow_mapped]
    simp [Store.mapped, Store.empty]
  simp only [moved, new, Native.all, List.foldl, hadd, hempty]

theorem interpret_moved (fuel : Nat) (host : Host) (s : Session) (program : List (Stmt Address)) :
    (s.moved l).interpret fuel host (Stmt.movedAll l program) =
      ((s.interpret fuel host program).1.moved l, (s.interpret fuel host program).2.moved l) := by
  have hcontext : context host = (context host).moved l .none := rfl
  unfold interpret
  rw [machine_moved, hcontext, execEach_moved, ← hcontext]
  cases execEach fuel (context host) program s.machine with
  | outOfFuel m => simp [Outcome.moved, RunReport.moved, Verdict.moved, Machine.moved, Past.none]
  | done _ m =>
    simp [Outcome.moved, RunReport.moved, Verdict.moved, Machine.moved, Past.none, ofMachine, moved]
  | stopped why m =>
    cases why <;> simp [Outcome.moved, Stop.moved, RunReport.moved, Verdict.moved, Machine.moved,
      Past.none, ofMachine, moved]

theorem runTokens_moved (fuel : Nat) (host : Host) (s : Session) (tokens : List Token) :
    (s.moved l).runTokens fuel host (tokens.map (Token.moved l)) =
      ((s.runTokens fuel host tokens).1.moved l, (s.runTokens fuel host tokens).2.moved l) := by
  unfold runTokens
  rw [parse_moved]
  cases parse host.frames tokens with
  | error f => exact Prod.ext (RunReport.moved_silent l (.garbled f)).symm rfl
  | ok parsed =>
    simp only [Except.map, Parsed.moved, check_moved, resolve_moved, ne_eq, List.map_eq_nil_iff]
    split
    · exact Prod.ext (RunReport.moved_silent l (.badSyntax parsed.reports)).symm rfl
    · split
      · exact Prod.ext (RunReport.moved_silent l (.badScopes (check parsed.statements))).symm rfl
      · exact interpret_moved fuel host s _

end Session

/-- Two lines of diagnostics that say the same of two places in a text. -/
inductive SameNotice : String → String → Prop where
  | line (m n : Nat) (notice : String) :
    SameNotice ("[Line " ++ toString m ++ "] " ++ notice) ("[Line " ++ toString n ++ "] " ++ notice)
  | column (p q : Position) (notice : String) :
    SameNotice
      ("[Line " ++ toString p.line ++ ", Col " ++ toString p.column ++ "] " ++ notice)
      ("[Line " ++ toString q.line ++ ", Col " ++ toString q.column ++ "] " ++ notice)

/-- The lines that tell the user of errors. -/
def Verdict.notices : Verdict → List String
  | badSyntax reports => (Diagnostic.told reports).map Diagnostic.line
  | badScopes reports => reports.map ScopeReport.line
  | failed e => [e.line]
  | success | aborted _ | garbled _ | unfinished => []

theorem Verdict.errors_eq_notices (v : Verdict) :
    v.errors = String.join (v.notices.map (· ++ "\n")) := by
  cases v with
  | badSyntax reports => simp [errors, notices, Diagnostic.text, Function.comp_def]
  | badScopes reports => simp [errors, notices, ScopeReport.text, Function.comp_def]
  | failed e => simp [errors, notices, String.join]
  | success | aborted | garbled | unfinished => rfl

/-- Nothing but lines and columns tells the runs apart. -/
structure RunReport.Alike (r r' : RunReport) : Prop where
  verdict : r.verdict.moved .bare = r'.verdict.moved .bare
  rejection : r.verdict.isRejection = r'.verdict.isRejection
  failure : r.verdict.isFailure = r'.verdict.isFailure
  output : r.output = r'.output
  notices : List.Forall₂ SameNotice r.verdict.notices r'.verdict.notices

/-- Lists that are the same but for the layout are so one by one. -/
theorem forall₂_of_map_eq {α β : Type} {f : α → β} {xs ys : List α} (h : xs.map f = ys.map f) :
    List.Forall₂ (fun x y => f x = f y) xs ys := by
  rw [← List.forall₂_eq_eq_eq, List.forall₂_map_left_iff, List.forall₂_map_right_iff] at h
  exact h

theorem Diagnostic.sameNotice {d d' : Diagnostic} (h : d.moved l = d'.moved l) :
    SameNotice d.line d'.line := by
  have hplace : place d.token = place d'.token := by
    rw [← place_moved l, ← token_moved, h, token_moved, place_moved]
  have hcause : d.cause = d'.cause := by rw [← cause_moved l, h, cause_moved]
  have hline (d : Diagnostic) :
      d.line = "[Line " ++ toString d.token.pos.line ++ ", Col " ++ toString d.token.pos.column ++
        "] " ++ ("Error" ++ place d.token ++ ": " ++ d.cause.message) := by
    have hcut : "] Error" = "] " ++ "Error" := rfl
    rw [line, hcut]
    simp only [String.append_assoc]
  rw [hline, hline, hplace, hcause]
  exact .column _ _ _

theorem ScopeReport.sameNotice {r r' : ScopeReport} (h : r.moved l = r'.moved l) :
    SameNotice r.line r'.line := by
  have hmessage : r.message = r'.message := by rw [← message_moved l, h, message_moved]
  have hline (r : ScopeReport) :
      r.line = "[Line " ++ toString r.token.pos.line ++ "] " ++ ("Error: " ++ r.message) := by
    have hcut : "] Error: " = "] " ++ "Error: " := rfl
    rw [line, hcut]
    simp only [String.append_assoc]
  rw [hline, hline, hmessage]
  exact .line _ _ _

theorem RuntimeError.sameNotice {e e' : RuntimeError} (h : e.moved l = e'.moved l) :
    SameNotice e.line e'.line := by
  have hmessage : e.message = e'.message := by rw [← message_moved l, h, message_moved]
  have hline (e : RuntimeError) :
      e.line = "[Line " ++ toString e.token.pos.line ++ "] " ++
        ("Runtime error: " ++ e.message) := by
    have hcut : "] Runtime error: " = "] " ++ "Runtime error: " := rfl
    rw [line, hcut]
    simp only [String.append_assoc]
  rw [hline, hline, hmessage]
  exact .line _ _ _

theorem Verdict.sameNotices {v v' : Verdict} (h : v.moved l = v'.moved l) :
    List.Forall₂ SameNotice v.notices v'.notices := by
  cases v <;> cases v' <;> simp only [moved, reduceCtorEq, badSyntax.injEq, badScopes.injEq,
    failed.injEq] at h
  case badSyntax.badSyntax reports reports' =>
    have htold : (Diagnostic.told reports).map (Diagnostic.moved l) =
        (Diagnostic.told reports').map (Diagnostic.moved l) := by
      rw [← Diagnostic.told_moved, h, Diagnostic.told_moved]
    simp only [notices, List.forall₂_map_left_iff, List.forall₂_map_right_iff]
    exact (forall₂_of_map_eq htold).imp fun _ _ => Diagnostic.sameNotice
  case badScopes.badScopes reports reports' =>
    simp only [notices, List.forall₂_map_left_iff, List.forall₂_map_right_iff]
    exact (forall₂_of_map_eq h).imp fun _ _ => ScopeReport.sameNotice
  case failed.failed e e' => exact .cons (RuntimeError.sameNotice h) .nil
  all_goals exact .nil

theorem RunReport.output_moved (r : RunReport) : (r.moved l).output = r.output :=
  Value.lines_moved l r.printed

theorem RunReport.alike {r r' : RunReport} (h : r.moved .bare = r'.moved .bare) : r.Alike r' := by
  have hverdict : r.verdict.moved .bare = r'.verdict.moved .bare := congrArg RunReport.verdict h
  have hrejection (v : Verdict) : (v.moved .bare).isRejection = v.isRejection := by cases v <;> rfl
  have hfailure (v : Verdict) : (v.moved .bare).isFailure = v.isFailure := by cases v <;> rfl
  refine ⟨hverdict, ?_, ?_, ?_, Verdict.sameNotices hverdict⟩
  · rw [← hrejection, hverdict, hrejection]
  · rw [← hfailure, hverdict, hfailure]
  · rw [← output_moved, h, output_moved]

/-- The texts have the same tokens in another layout, errors of the scanner included. -/
def SameTokens (text text' : String) : Prop :=
  (scan text).map (fun t => (t.kind, t.lexeme)) = (scan text').map (fun t => (t.kind, t.lexeme))

theorem SameTokens.moved_bare {text text' : String} (h : SameTokens text text') :
    (scan text).map (Token.moved .bare) = (scan text').map (Token.moved .bare) := by
  have hbare : Token.moved .bare = (fun p : Kind × String => ⟨p.1, p.2, ⟨0, 0⟩⟩) ∘
      fun t => (t.kind, t.lexeme) := rfl
  rw [hbare, ← List.map_map, h, List.map_map]

/-- The same tokens, with the same fuel and on the same host. -/
structure Submission.Alike (sub sub' : Submission) : Prop where
  tokens : SameTokens sub.text sub'.text
  fuel : sub.fuel = sub'.fuel
  host : sub.host = sub'.host

/-- With room for so many rules, the trees of the texts, addresses included, are the same in another
layout; or both texts have none. -/
def SameTrees (room : Nat) (text text' : String) : Prop :=
  (parse room (scan text)).map (Parsed.moved .bare) =
      (parse room (scan text')).map (Parsed.moved .bare) ∧
    (parse room (scan text)).map (fun p => Stmt.movedAll .bare (resolve p.statements)) =
      (parse room (scan text')).map fun p => Stmt.movedAll .bare (resolve p.statements)

theorem SameTokens.sameTrees {text text' : String} (h : SameTokens text text') (room : Nat) :
    SameTrees room text text' := by
  have hparsed : (parse room (scan text)).map (Parsed.moved .bare) =
      (parse room (scan text')).map (Parsed.moved .bare) := by
    rw [← parse_moved, h.moved_bare, parse_moved]
  have hresolved (x : Except ParseFault Parsed) :
      x.map (fun p => Stmt.movedAll .bare (resolve p.statements)) =
        (x.map (Parsed.moved .bare)).map fun p => resolve p.statements := by
    cases x with
    | error f => rfl
    | ok p => exact congrArg Except.ok (resolve_moved .bare p.statements).symm
  refine ⟨hparsed, ?_⟩
  rw [hresolved, hparsed, hresolved]

namespace Session

theorem run_alike (fuel : Nat) (host : Host) {s s' : Session} {text text' : String}
    (hs : s.moved .bare = s'.moved .bare) (htext : SameTokens text text') :
    (s.run fuel host text).1.moved .bare = (s'.run fuel host text').1.moved .bare ∧
      (s.run fuel host text).2.moved .bare = (s'.run fuel host text').2.moved .bare := by
  have hrun : (s.moved .bare).runTokens fuel host ((scan text).map (Token.moved .bare)) =
      (s'.moved .bare).runTokens fuel host ((scan text').map (Token.moved .bare)) := by
    rw [hs, htext.moved_bare]
  rw [runTokens_moved, runTokens_moved] at hrun
  exact Prod.ext_iff.1 hrun

/-- One text after another, each with its own fuel and on its own host. -/
def submitAll : Session → List Submission → List RunReport
  | _, [] => []
  | s, sub :: subs =>
    let (report, s) := s.run sub.fuel sub.host sub.text
    report :: s.submitAll subs

theorem submitAll_alike {s s' : Session} {subs subs' : List Submission}
    (hs : s.moved .bare = s'.moved .bare) (hsubs : List.Forall₂ Submission.Alike subs subs') :
    List.Forall₂ RunReport.Alike (s.submitAll subs) (s'.submitAll subs') := by
  induction hsubs generalizing s s' with
  | nil => exact .nil
  | @cons sub sub' _ _ hsub _ ih =>
    obtain ⟨htokens, hfuel, hhost⟩ := hsub
    obtain ⟨hreport, hafter⟩ := run_alike sub.fuel sub.host hs htokens
    unfold submitAll
    rw [← hfuel, ← hhost]
    exact .cons (RunReport.alike hreport) (ih hafter)

/-- Texts that differ in layout alone do the same at every step, and have the same trees. -/
theorem layout_independent {subs subs' : List Submission}
    (h : List.Forall₂ Submission.Alike subs subs') :
    List.Forall₂ RunReport.Alike (new.submitAll subs) (new.submitAll subs') ∧
      List.Forall₂ (fun sub sub' => ∀ room, SameTrees room sub.text sub'.text) subs subs' :=
  ⟨submitAll_alike rfl h, h.imp fun _ _ hsub => hsub.tokens.sameTrees⟩

/-- The second text finds the variable of the first one and has one of its own, which it prints from
a block inside. The error is told of another line. -/
theorem layout_independent_error :
    let host : Host := .still 99 0
    let first := "var a = \"x\"; print a;"
    let first' := "var a =\n  \"x\";\nprint a;"
    let second := "\x7b var b = a; \x7b print b; \x7d print -b; \x7d"
    let second' := "\x7b\n  var b = a; // a copy\n  \x7bprint b;\x7d\n  print -b;\n\x7d"
    let subs : List Submission := [⟨first, 12, host⟩, ⟨second, 12, host⟩]
    let subs' : List Submission := [⟨first', 12, host⟩, ⟨second', 12, host⟩]
    let name (s : String) (line column : Nat) : Token := ⟨.identifier, s, ⟨line, column⟩⟩
    let shown (r : RunReport) : String × String := (r.output, r.errors)
    List.Forall₂ Submission.Alike subs subs' ∧
      List.Forall₂ RunReport.Alike (new.submitAll subs) (new.submitAll subs') ∧
      List.Forall₂ (fun sub sub' => ∀ room, SameTrees room sub.text sub'.text) subs subs' ∧
      (new.submitAll subs).map shown = [("\"x\"\n", ""),
        ("\"x\"\n", "[Line 1] Runtime error: Bad operand type for unary '-': 'String'.\n")] ∧
      (new.submitAll subs').map shown = [("\"x\"\n", ""),
        ("\"x\"\n", "[Line 4] Runtime error: Bad operand type for unary '-': 'String'.\n")] ∧
      (parse 99 (scan second')).map (fun parsed => resolve parsed.statements) =
        .ok [.block [.var (name "b" 2 7) (some (.reference (name "a" 2 11) .global)),
          .block [.print (.reference (name "b" 3 10) (.up 1))],
          .print (.unary ⟨.minus, "-", ⟨4, 9⟩⟩ (.reference (name "b" 4 10) (.up 0)))]] := by
  intro host first first' second second' subs subs' name shown
  have hfirst : SameTokens first first' := by
    unfold SameTokens
    decide +kernel
  have hsecond : SameTokens second second' := by
    unfold SameTokens
    decide +kernel
  have hboth : List.Forall₂ Submission.Alike subs subs' :=
    .cons ⟨hfirst, rfl, rfl⟩ (.cons ⟨hsecond, rfl, rfl⟩ .nil)
  obtain ⟨hreports, htrees⟩ := layout_independent hboth
  have hscan : scan second' = [⟨.leftBrace, "\x7b", ⟨1, 1⟩⟩, ⟨.kwVar, "var", ⟨2, 3⟩⟩, name "b" 2 7,
      ⟨.equal, "=", ⟨2, 9⟩⟩, name "a" 2 11, ⟨.semicolon, ";", ⟨2, 12⟩⟩,
      ⟨.leftBrace, "\x7b", ⟨3, 3⟩⟩, ⟨.kwPrint, "print", ⟨3, 4⟩⟩, name "b" 3 10,
      ⟨.semicolon, ";", ⟨3, 11⟩⟩, ⟨.rightBrace, "\x7d", ⟨3, 12⟩⟩,
      ⟨.kwPrint, "print", ⟨4, 3⟩⟩, ⟨.minus, "-", ⟨4, 9⟩⟩, name "b" 4 10,
      ⟨.semicolon, ";", ⟨4, 11⟩⟩, ⟨.rightBrace, "\x7d", ⟨5, 1⟩⟩, ⟨.eof, "", ⟨5, 2⟩⟩] := by
    decide +kernel
  have hparse : parse 99 (scan second') = .ok ⟨[.block [
      .var (name "b" 2 7) (some (.reference (name "a" 2 11) ())),
      .block [.print (.reference (name "b" 3 10) ())],
      .print (.unary ⟨.minus, "-", ⟨4, 9⟩⟩ (.reference (name "b" 4 10) ()))]], []⟩ := by
    rw [hscan]
    cbv
  refine ⟨hboth, hreports, htrees, by decide +kernel, by decide +kernel, ?_⟩
  rw [hparse]
  rfl

end Session

end Scriptlet

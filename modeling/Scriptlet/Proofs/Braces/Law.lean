import Scriptlet.CommandLine.Shell
import Scriptlet.Proofs.Braces.Lockstep
import Scriptlet.Proofs.Evaluation.Recursion

/-! Statements can be put in braces without changing what a program does, as long as the frames that
this takes are there. -/
namespace Scriptlet

/-- All that is seen of the first run is seen of the second one. -/
structure RunReport.SeenIn (r r' : RunReport) : Prop where
  lines : r.lines <+: r'.lines
  ending (h : r.verdict ≠ .unfinished) : r'.verdict = r.verdict ∧ r'.output = r.output

theorem RunReport.SeenIn.of_eq {r r' : RunReport} (hverdict : r'.verdict = r.verdict)
    (hlines : r'.lines = r.lines) : r.SeenIn r' :=
  ⟨hlines ▸ List.prefix_rfl, fun _ => ⟨hverdict, RunReport.output_congr hlines⟩⟩

/-! What the agreement of two runs says about all that is seen of them. -/

namespace Course

variable {α β : Type} {φ : List Nat} {flags : List Bool} {V : List Nat → α → β → Prop}
  {r : Course α} {r' : Course β}

theorem lines_report (r : Course α) : r.report.lines = r.state.machine.shown := by
  rw [RunReport.lines, printed_report]
  rfl

theorem seenIn_cut {s : Interpreter} (h : s.machine.shown <+: r'.state.machine.shown) :
    (cut s : Course α).report.SeenIn r'.report :=
  ⟨by rwa [lines_report, lines_report], fun hfinished => absurd rfl hfinished⟩

/-- What the second run shows is shown by the first one, even if the second one is out of frames. -/
theorem Agree.lines_second (h : r.Agree .second φ flags V r') :
    r'.report.lines <+: r.report.lines := by
  rw [lines_report, lines_report]
  cases h with
  | done _ hs => exact hs.machine.shown ▸ List.prefix_rfl
  | stopped _ h => exact h ▸ List.prefix_rfl
  | first hside => cases hside
  | second _ h => exact h
  | overflow _ h => exact h

theorem Agree.seenIn (h : r.Agree .first φ flags V r') (hroom : ¬ r'.report.verdict.IsOverflow) :
    r.report.SeenIn r'.report := by
  cases h with
  | done _ hs => exact .of_eq rfl hs.machine.shown
  | stopped _ h => exact .of_eq rfl h
  | first _ h => exact seenIn_cut h
  | second hside => cases hside
  | overflow paren => exact absurd ⟨paren, rfl⟩ hroom

theorem Agree.seenIn_second (h : r.Agree .second φ flags V r')
    (hroom : ¬ r'.report.verdict.IsOverflow) : r'.report.SeenIn r.report := by
  cases h with
  | done _ hs => exact .of_eq rfl hs.machine.shown.symm
  | stopped _ h => exact .of_eq rfl h.symm
  | first hside => cases hside
  | second _ h => exact seenIn_cut h
  | overflow paren => exact absurd ⟨paren, rfl⟩ hroom

end Course

namespace Session

variable {host : Host} {trees trees' : List (Stmt Address)}

/-- All that is ever seen of the first program is seen of the second one, with enough fuel. -/
def KeepsUp (host : Host) (program program' : List (Stmt Address)) : Prop :=
  ∀ fuel, ∃ more, (new.interpret fuel host program).1.SeenIn (new.interpret more host program').1

namespace KeepsUp

theorem ends (h : KeepsUp host trees trees') {verdict : Verdict} {output : String}
    (hends : Ends host trees verdict output) : Ends host trees' verdict output := by
  obtain ⟨fuel, rfl, rfl⟩ := hends.finished
  obtain ⟨more, hseen⟩ := h fuel
  obtain ⟨hverdict, houtput⟩ := hseen.ending hends.1
  rw [← hverdict, ← houtput]
  exact ends_of_finished (hverdict ▸ hends.1)

theorem diverges (h : KeepsUp host trees trees') (hdiverges : Diverges host trees') :
    Diverges host trees := by
  intro fuel
  by_contra hfinished
  obtain ⟨more, hseen⟩ := h fuel
  exact hfinished ((hseen.ending hfinished).1.symm.trans (hdiverges more))

theorem prints (h : KeepsUp host trees trees') {lines : List String}
    (hprints : Prints host trees lines) : Prints host trees' lines := by
  obtain ⟨fuel, hlines⟩ := hprints
  obtain ⟨more, hseen⟩ := h fuel
  exact ⟨more, hlines.trans hseen.lines⟩

end KeepsUp

/-- Both programs start with the natives. -/
theorem paired_new :
    (new.interpreter [Machine.globals]).Paired [0] [] (new.interpreter [Machine.globals]) := by
  refine ⟨⟨⟨rfl, fun f' hf' => ?_, List.pairwise_singleton _ _, rfl, fun f f' hf => ?_⟩, rfl, rfl,
    rfl⟩,
    .top rfl, rfl, rfl⟩
  · rw [List.mem_singleton.1 hf']
    decide
  · cases f with
    | succ f => cases hf
    | zero =>
      obtain rfl := Option.some.inj hf
      have hnative (f : Native) : (Value.native f).Paired [0] (.native f) :=
        .plain fun g => by simp
      exact .cons ⟨trivial, rfl, hnative .typeof⟩ (.cons ⟨trivial, rfl, hnative .clock⟩ .nil)

variable {program program' : List (Stmt Unit)} {room : Nat} {tokens : List Token}

theorem agree_course {side : Side} {n k : Nat} (hk : side.Ample n k) (host : Host)
    (h : Stmt.AllRecast program program') (hplaced : Stmt.AllPlaced program) :
    (new.course n host (resolve program)).Agree side [0] [] (fun _ _ _ => True)
      (new.course k host (resolve program')) :=
  lockstep_execEach hk ⟨rfl, rfl, Nat.le_refl _⟩ h hplaced .nil (by simp) [0] _ _
    (List.prefix_refl _) paired_new

/-- What the second program shows, the first one shows. The second one takes more frames: unless it
runs out of them, each of the programs keeps up with the other one. It needs more fuel too. -/
theorem keepsUp_recast (host : Host) (h : Stmt.AllRecast program program')
    (hplaced : Stmt.AllPlaced program) :
    (∀ lines, Prints host (resolve program') lines → Prints host (resolve program) lines) ∧
    (¬ Overflows host (resolve program') →
      KeepsUp host (resolve program) (resolve program') ∧
        KeepsUp host (resolve program') (resolve program)) := by
  refine ⟨fun lines ⟨fuel, hlines⟩ => ⟨fuel, hlines.trans ?_⟩, fun hroom =>
    ⟨fun fuel => ⟨4 * fuel, ?_⟩, fun fuel => ⟨fuel, ?_⟩⟩⟩
  · have hk : Side.second.Ample fuel fuel := Nat.le_refl fuel
    rw [← report_course, ← report_course]
    exact (agree_course hk host h hplaced).lines_second
  · have hk : Side.first.Ample fuel (4 * fuel) := Nat.le_refl _
    have hnot := not_isOverflow hroom (4 * fuel)
    rw [← report_course] at hnot
    rw [← report_course, ← report_course]
    exact (agree_course hk host h hplaced).seenIn hnot
  · have hk : Side.second.Ample fuel fuel := Nat.le_refl fuel
    have hnot := not_isOverflow hroom fuel
    rw [← report_course] at hnot
    rw [← report_course, ← report_course]
    exact (agree_course hk host h hplaced).seenIn_second hnot

/-- The same in terms of what becomes of the two programs. -/
theorem runs_recast (host : Host) (h : Stmt.AllRecast program program')
    (hplaced : Stmt.AllPlaced program) :
    (∀ lines, Prints host (resolve program') lines → Prints host (resolve program) lines) ∧
    (¬ Overflows host (resolve program') →
      (∀ verdict output, Ends host (resolve program') verdict output ↔
        Ends host (resolve program) verdict output) ∧
      (Diverges host (resolve program') ↔ Diverges host (resolve program)) ∧
      ∀ lines, Prints host (resolve program') lines ↔ Prints host (resolve program) lines) := by
  obtain ⟨hprints, hkeeps⟩ := keepsUp_recast host h hplaced
  refine ⟨hprints, fun hroom => ?_⟩
  obtain ⟨hthere, hback⟩ := hkeeps hroom
  exact ⟨fun _ _ => ⟨hback.ends, hthere.ends⟩, ⟨hthere.diverges, hback.diverges⟩,
    fun _ => ⟨hback.prints, hthere.prints⟩⟩

theorem parsed_placed (hparse : parse room tokens = .ok ⟨program, []⟩)
    (hcheck : check program = []) : Stmt.AllPlaced program :=
  Stmt.placed_resolveAll (parsed_scoped hparse hcheck).placed

/-- Any statements of a program but declarations are put in braces of their own. The resolver
accepts the new program too. Whatever it prints, the old one prints. Unless it ends since there are
not enough frames for the scopes in it, both programs end in the same way, with the same error and
the same output, or neither of them ends, and they print the same lines. -/
theorem braces_change_nothing (hparse : parse room tokens = .ok ⟨program, []⟩)
    (hcheck : check program = []) (hbraced : Stmt.AllBraced program program') :
    check program' = [] ∧ ∀ host,
      (∀ lines, Prints host (resolve program') lines → Prints host (resolve program) lines) ∧
      (¬ Overflows host (resolve program') →
        (∀ verdict output, Ends host (resolve program') verdict output ↔
          Ends host (resolve program) verdict output) ∧
        (Diverges host (resolve program') ↔ Diverges host (resolve program)) ∧
        ∀ lines, Prints host (resolve program') lines ↔ Prints host (resolve program) lines) := by
  have hplaced := parsed_placed hparse hcheck
  exact ⟨hbraced.check hplaced .nil (by simp) hcheck,
    fun host => runs_recast host hbraced.recast hplaced⟩

/-- The variable is one scope further from where it is printed. -/
theorem braces_change_nothing_local :
    let name (column : Nat) : Token := ⟨.identifier, "a", ⟨1, column⟩⟩
    let print : Stmt Unit := .print (.reference (name 14) ())
    let program (st : Stmt Unit) : List (Stmt Unit) := [.block [.var (name 6) none, st]]
    let text := "\x7bvar a;print a;\x7d"
    let host : Host := .still 99 0
    parse host.frames (scan text) = .ok ⟨program print, []⟩ ∧ check (program print) = [] ∧
      Stmt.AllBraced (program print) (program (.block [print])) ∧
      check (program (.block [print])) = [] ∧
      resolve (program (.block [print])) =
        [.block [.var (name 6) none, .block [.print (.reference (name 14) (.up 1))]]] ∧
      Ends host (resolve (program (.block [print]))) .success "nil\n" ∧
      ¬ Overflows host (resolve (program (.block [print]))) ∧
      Ends host (resolve (program print)) .success "nil\n" := by
  intro name print program text host
  have hscan : scan text = [⟨.leftBrace, "\x7b", ⟨1, 1⟩⟩, ⟨.kwVar, "var", ⟨1, 2⟩⟩, name 6,
      ⟨.semicolon, ";", ⟨1, 7⟩⟩, ⟨.kwPrint, "print", ⟨1, 8⟩⟩, name 14,
      ⟨.semicolon, ";", ⟨1, 15⟩⟩, ⟨.rightBrace, "\x7d", ⟨1, 16⟩⟩, ⟨.eof, "", ⟨1, 17⟩⟩] := by
    decide +kernel
  have hparse : parse host.frames (scan text) = .ok ⟨program print, []⟩ := by
    rw [hscan]
    cbv
  have hbraced : Stmt.AllBraced (program print) (program (.block [print])) :=
    .cons (.inside (.block (.cons (.refl _) (.cons (.braces rfl (.refl _)) .nil)))) .nil
  obtain ⟨hcheck, hruns⟩ := braces_change_nothing hparse rfl hbraced
  have hfinished : (new.interpret 9 host (resolve (program (.block [print])))).1.verdict ≠
      .unfinished := by
    decide +kernel
  have hends : Ends host (resolve (program (.block [print]))) .success "nil\n" :=
    ends_of_finished hfinished
  have hroom : ¬ Overflows host (resolve (program (.block [print]))) :=
    hends.not_overflows (by simp [Verdict.IsOverflow])
  exact ⟨hparse, rfl, hbraced, hcheck, rfl, hends, hroom,
    (((hruns host).2 hroom).1 _ _).1 hends⟩

/-- With braces around the call in it, a function that calls itself runs out of frames earlier. -/
theorem braces_take_frames :
    let name (column : Nat) : Token := ⟨.identifier, "f", ⟨1, column⟩⟩
    let call (column : Nat) : Stmt Unit := .expression
      (.call (.reference (name column) ()) ⟨.rightParen, ")", ⟨1, column + 2⟩⟩ [])
    let program (st : Stmt Unit) : List (Stmt Unit) :=
      [.function (name 10) [] [.print (.literal .nil), st], call 29]
    let text := "function f()\x7bprint nil;f();\x7df();"
    let host : Host := .still CommandLine.frameLimit 0
    let lines := List.replicate 2000 "nil"
    parse host.frames (scan text) = .ok ⟨program (call 24), []⟩ ∧
      check (program (call 24)) = [] ∧
      Stmt.AllBraced (program (call 24)) (program (.block [call 24])) ∧
      Prints host (resolve (program (call 24))) lines ∧
      ¬ Prints host (resolve (program (.block [call 24]))) lines ∧
      Overflows host (resolve (program (.block [call 24]))) := by
  intro name call program text host lines
  have hscan : scan text = [⟨.kwFunction, "function", ⟨1, 1⟩⟩, name 10, ⟨.leftParen, "(", ⟨1, 11⟩⟩,
      ⟨.rightParen, ")", ⟨1, 12⟩⟩, ⟨.leftBrace, "\x7b", ⟨1, 13⟩⟩, ⟨.kwPrint, "print", ⟨1, 14⟩⟩,
      ⟨.kwNil, "nil", ⟨1, 20⟩⟩, ⟨.semicolon, ";", ⟨1, 23⟩⟩, name 24, ⟨.leftParen, "(", ⟨1, 25⟩⟩,
      ⟨.rightParen, ")", ⟨1, 26⟩⟩, ⟨.semicolon, ";", ⟨1, 27⟩⟩, ⟨.rightBrace, "\x7d", ⟨1, 28⟩⟩,
      name 29, ⟨.leftParen, "(", ⟨1, 30⟩⟩, ⟨.rightParen, ")", ⟨1, 31⟩⟩, ⟨.semicolon, ";", ⟨1, 32⟩⟩,
      ⟨.eof, "", ⟨1, 33⟩⟩] := by
    decide +kernel
  have hparse : parse host.frames (scan text) = .ok ⟨program (call 24), []⟩ := by
    rw [hscan]
    cbv
  have hbraced : Stmt.AllBraced (program (call 24)) (program (.block [call 24])) :=
    .cons (.inside (.function _ _ (.cons (.refl _) (.cons (.braces rfl (.refl _)) .nil)))) (.refl _)
  let called : Stmt Address := .expression
    (.call (.reference (name 24) .global) ⟨.rightParen, ")", ⟨1, 26⟩⟩ [])
  have hcalls (st : Stmt Address) : Recurs (recursive (name 10) st) 8 9 fun n c m =>
      exec (n + 3) c called m :=
    (Recurs.callExpression rfl (name 24) rfl _).expression
  have hblock (st : Stmt Address) : Recurs (recursive (name 10) st) 12 13 fun n c m =>
      exec (n + 5) c (.block [called]) m :=
    ((hcalls st).first []).block (k := 4)
  have hfree : new.machine.store.binds Machine.globals "f" = false := by decide
  have hplain := recursion_overflows host (name 10) (name 29) ⟨.rightParen, ")", ⟨1, 31⟩⟩ 2499
    hfree rfl (hcalls _) (by decide) (by decide)
    (fun i hi => by change 8 + (8 * i + 6) ≤ 20000; omega) (by decide)
  have hbraces := recursion_overflows host (name 10) (name 29) ⟨.rightParen, ")", ⟨1, 31⟩⟩ 1666
    hfree rfl (hblock _) (by decide) (by decide)
    (fun i hi => by change 8 + (12 * i + 6) ≤ 20000; omega) (by decide)
  exact ⟨hparse, rfl, hbraced, (hplain.2 _).2 (by decide), mt (hbraces.2 _).1 (by decide),
    hbraces.1⟩

end Session
end Scriptlet

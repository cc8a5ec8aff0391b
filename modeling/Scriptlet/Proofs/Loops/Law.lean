import Scriptlet.Proofs.Braces.Law
import Scriptlet.Proofs.Loops.Replaced

/-! The step of a loop may as well stand at the end of its body, as long as the frames that this
takes are there. -/
namespace Scriptlet.Session

open Grammar

variable {program program' : List (Stmt Unit)}

/-- A loop with a step, in whose body no `continue` belongs to the loop, is replaced by a loop
without one that has the step at the end of its body, in a block of their own. The resolver accepts
the new program too. Whatever it prints, the old one prints. Unless it ends since there are not
enough frames for the scopes in it, both programs end in the same way, with the same error and the
same output, or neither of them ends, and they print the same lines. -/
theorem step_ends_body {room : Nat} {tokens : List Token} {condition : Expr Unit}
    {body step : Stmt Unit} (hparse : parse room tokens = .ok ⟨program, []⟩)
    (hcheck : check program = [])
    (hreplaced : Stmt.AllReplaced (.loopStep condition body step)
      (.loop condition (.block [body, step])) program program')
    (hagain : body.escapes (.jump .again) = false) :
    check program' = [] ∧ ∀ host,
      (∀ lines, Prints host (resolve program') lines → Prints host (resolve program) lines) ∧
      (¬ Overflows host (resolve program') →
        (∀ verdict output, Ends host (resolve program') verdict output ↔
          Ends host (resolve program) verdict output) ∧
        (Diverges host (resolve program') ↔ Diverges host (resolve program)) ∧
        ∀ lines, Prints host (resolve program') lines ↔ Prints host (resolve program) lines) := by
  obtain ⟨ts, eof, rest, -, -, hspelled⟩ := Parse.parse_reads hparse
  obtain ⟨e, rfl⟩ := hspelled.steps _ _ _ _ _ hreplaced
  have hrecast := hreplaced.recast (.stepInside condition (.refl body) hagain e)
  have hplaced := parsed_placed hparse hcheck
  exact ⟨hrecast.check hplaced .nil (by simp) hcheck, fun host => runs_recast host hrecast hplaced⟩

/-- In the body the step finds its variable one scope further. -/
theorem step_ends_body_assignment :
    let name (column : Nat) : Token := ⟨.identifier, "a", ⟨1, column⟩⟩
    let use (column : Nat) : Expr Unit := .reference (name column) ()
    let body : Stmt Unit := .print (use 32)
    let step : Stmt Unit := .expression (.assign (name 18) (.literal (.bool false)) ())
    let program (loop : Stmt Unit) : List (Stmt Unit) :=
      [.block [.var (name 9) (some (.literal (.bool true))), loop]]
    let before := program (.loopStep (use 16) body step)
    let after := program (.loop (use 16) (.block [body, step]))
    let text := "for(var a=true;a;a=false)print a;"
    let host : Host := .still 99 0
    parse host.frames (scan text) = .ok ⟨before, []⟩ ∧ check before = [] ∧
      Stmt.AllReplaced (.loopStep (use 16) body step) (.loop (use 16) (.block [body, step]))
        before after ∧
      body.escapes (.jump .again) = false ∧ check after = [] ∧
      resolve after = [.block [.var (name 9) (some (.literal (.bool true))),
        .loop (.reference (name 16) (.up 0)) (.block [.print (.reference (name 32) (.up 1)),
          .expression (.assign (name 18) (.literal (.bool false)) (.up 1))])]] ∧
      Ends host (resolve after) .success "true\n" ∧ ¬ Overflows host (resolve after) ∧
      Ends host (resolve before) .success "true\n" := by
  intro name use body step program before after text host
  have hscan : scan text = [⟨.kwFor, "for", ⟨1, 1⟩⟩, ⟨.leftParen, "(", ⟨1, 4⟩⟩,
      ⟨.kwVar, "var", ⟨1, 5⟩⟩, name 9, ⟨.equal, "=", ⟨1, 10⟩⟩, ⟨.kwTrue, "true", ⟨1, 11⟩⟩,
      ⟨.semicolon, ";", ⟨1, 15⟩⟩, name 16, ⟨.semicolon, ";", ⟨1, 17⟩⟩, name 18,
      ⟨.equal, "=", ⟨1, 19⟩⟩, ⟨.kwFalse, "false", ⟨1, 20⟩⟩, ⟨.rightParen, ")", ⟨1, 25⟩⟩,
      ⟨.kwPrint, "print", ⟨1, 26⟩⟩, name 32, ⟨.semicolon, ";", ⟨1, 33⟩⟩,
      ⟨.eof, "", ⟨1, 34⟩⟩] := by
    decide +kernel
  have hparse : parse host.frames (scan text) = .ok ⟨before, []⟩ := by
    rw [hscan]
    cbv
  have hreplaced : Stmt.AllReplaced (.loopStep (use 16) body step)
      (.loop (use 16) (.block [body, step])) before after :=
    .head (.block (.tail _ (.head .here _))) _
  obtain ⟨hcheck, hruns⟩ := step_ends_body hparse rfl hreplaced rfl
  have hfinished : (new.interpret 12 host (resolve after)).1.verdict ≠ .unfinished := by
    decide +kernel
  have hends : Ends host (resolve after) .success "true\n" := ends_of_finished hfinished
  have hroom : ¬ Overflows host (resolve after) :=
    hends.not_overflows (by simp [Verdict.IsOverflow])
  exact ⟨hparse, rfl, hreplaced, rfl, hcheck, rfl, hends, hroom,
    (((hruns host).2 hroom).1 _ _).1 hends⟩

/-- A function that calls itself in the step of a loop runs out of frames earlier if the step is in
the body. -/
theorem step_in_body_takes_frames :
    let name (column : Nat) : Token := ⟨.identifier, "f", ⟨1, column⟩⟩
    let call (column : Nat) : Stmt Unit := .expression
      (.call (.reference (name column) ()) ⟨.rightParen, ")", ⟨1, column + 2⟩⟩ [])
    let body : Stmt Unit := .expression (.literal .nil)
    let before : Stmt Unit := .loopStep (.literal (.bool true)) body (call 34)
    let after : Stmt Unit := .loop (.literal (.bool true)) (.block [body, call 34])
    let program (st : Stmt Unit) : List (Stmt Unit) :=
      [.function (name 10) [] [.print (.literal .nil), st], call 43]
    let text := "function f()\x7bprint nil;for(;true;f())nil;\x7df();"
    let host : Host := .still CommandLine.frameLimit 0
    let lines := List.replicate 1500 "nil"
    parse host.frames (scan text) = .ok ⟨program before, []⟩ ∧ check (program before) = [] ∧
      Stmt.AllReplaced before after (program before) (program after) ∧
      body.escapes (.jump .again) = false ∧ Prints host (resolve (program before)) lines ∧
      ¬ Prints host (resolve (program after)) lines ∧
      Overflows host (resolve (program after)) := by
  intro name call body before after program text host lines
  have hscan : scan text = [⟨.kwFunction, "function", ⟨1, 1⟩⟩, name 10, ⟨.leftParen, "(", ⟨1, 11⟩⟩,
      ⟨.rightParen, ")", ⟨1, 12⟩⟩, ⟨.leftBrace, "\x7b", ⟨1, 13⟩⟩, ⟨.kwPrint, "print", ⟨1, 14⟩⟩,
      ⟨.kwNil, "nil", ⟨1, 20⟩⟩, ⟨.semicolon, ";", ⟨1, 23⟩⟩, ⟨.kwFor, "for", ⟨1, 24⟩⟩,
      ⟨.leftParen, "(", ⟨1, 27⟩⟩, ⟨.semicolon, ";", ⟨1, 28⟩⟩, ⟨.kwTrue, "true", ⟨1, 29⟩⟩,
      ⟨.semicolon, ";", ⟨1, 33⟩⟩, name 34, ⟨.leftParen, "(", ⟨1, 35⟩⟩, ⟨.rightParen, ")", ⟨1, 36⟩⟩,
      ⟨.rightParen, ")", ⟨1, 37⟩⟩, ⟨.kwNil, "nil", ⟨1, 38⟩⟩, ⟨.semicolon, ";", ⟨1, 41⟩⟩,
      ⟨.rightBrace, "\x7d", ⟨1, 42⟩⟩, name 43, ⟨.leftParen, "(", ⟨1, 44⟩⟩,
      ⟨.rightParen, ")", ⟨1, 45⟩⟩, ⟨.semicolon, ";", ⟨1, 46⟩⟩, ⟨.eof, "", ⟨1, 47⟩⟩] := by
    decide +kernel
  have hparse : parse host.frames (scan text) = .ok ⟨program before, []⟩ := by
    rw [hscan]
    cbv
  have hreplaced : Stmt.AllReplaced before after (program before) (program after) :=
    .head (.function _ _ (.tail _ (.head .here _))) _
  let idle : Stmt Address := .expression (.literal .nil)
  let called : Stmt Address := .expression
    (.call (.reference (name 34) .global) ⟨.rightParen, ")", ⟨1, 36⟩⟩ [])
  have hcalls (st : Stmt Address) : Recurs (recursive (name 10) st) 8 9 fun n c m =>
      exec (n + 3) c called m :=
    (Recurs.callExpression rfl (name 34) rfl _).expression
  have hstep (st : Stmt Address) : Recurs (recursive (name 10) st) 11 12 fun n c m =>
      exec (n + 5) c (.loopStep (.literal (.bool true)) idle called) m :=
    (hcalls st).loopStep (k := 1)
  have hbody (st : Stmt Address) : Recurs (recursive (name 10) st) 12 13 fun n c m =>
      exec (n + 6) c (.block [idle, called]) m :=
    (((hcalls st).first []).others (k := 2)).block (k := 5)
  have hloop (st : Stmt Address) : Recurs (recursive (name 10) st) 15 16 fun n c m =>
      exec (n + 8) c (.loop (.literal (.bool true)) (.block [idle, called])) m :=
    (hbody st).loop (k := 5)
  have hfree : new.machine.store.binds Machine.globals "f" = false := by decide
  have hbefore := recursion_overflows host (name 10) (name 43) ⟨.rightParen, ")", ⟨1, 45⟩⟩ 1817
    hfree rfl (hstep _) (by decide) (by decide)
    (fun i hi => by change 8 + (11 * i + 6) ≤ 20000; omega) (by decide)
  have hafter := recursion_overflows host (name 10) (name 43) ⟨.rightParen, ")", ⟨1, 45⟩⟩ 1333
    hfree rfl (hloop _) (by decide) (by decide)
    (fun i hi => by change 8 + (15 * i + 6) ≤ 20000; omega) (by decide)
  exact ⟨hparse, rfl, hreplaced, rfl, (hbefore.2 _).2 (by decide), mt (hafter.2 _).1 (by decide),
    hafter.1⟩

end Scriptlet.Session

import Scriptlet.CommandLine.Shell
import Scriptlet.Proofs.Faults.Sessions
import Scriptlet.Proofs.Layout.Sessions
import Scriptlet.Proofs.Parsing.Told

/-! The three ways in which the run of a text ends when it ends with an answer, and the status that
the command makes of them. -/
namespace Scriptlet

/-- All went well: neither flag is set, and nothing is told of errors. -/
structure RunReport.Succeeds (r : RunReport) : Prop where
  answer : r.verdict.answer? = some (.ok true)
  rejection : r.verdict.isRejection = false
  failure : r.verdict.isFailure = false
  errors : r.errors = ""

/-- The program was stopped by an error of its own, and told of this one error. -/
structure RunReport.Fails (r : RunReport) : Prop where
  answer : r.verdict.answer? = some (.ok false)
  rejection : r.verdict.isRejection = false
  failure : r.verdict.isFailure = true
  errors : ∃ e, r.verdict = .failed e ∧
    r.errors = "[Line " ++ toString e.token.pos.line ++ "] Runtime error: " ++ e.message ++ "\n"

/-- The text was not run, and its errors are told. The session after it is the one before it, and
goes on as if there had been no such text. -/
structure Session.Rejects (s after : Session) (r : RunReport) : Prop where
  answer : r.verdict.answer? = some (.ok false)
  rejection : r.verdict.isRejection = true
  failure : r.verdict.isFailure = false
  output : r.output = ""
  notices : r.verdict.notices ≠ []
  errors : r.errors = String.join (r.verdict.notices.map (· ++ "\n"))
  unchanged : after = s
  later (subs : List Submission) : after.submitAll subs = s.submitAll subs

def ExactlyOne (p q r : Prop) : Prop := (p ∧ ¬q ∧ ¬r) ∨ (¬p ∧ q ∧ ¬r) ∨ (¬p ∧ ¬q ∧ r)

/-- Three cases that the flags tell apart. -/
theorem ExactlyOne.of_flags {p q r : Prop} {rejection failure : Bool}
    (hp : p → rejection = false ∧ failure = false) (hq : q → rejection = true ∧ failure = false)
    (hr : r → rejection = false ∧ failure = true) (h : p ∨ q ∨ r) : ExactlyOne p q r := by
  unfold ExactlyOne
  grind

namespace Session

variable {fuel : Nat} {host : Host} {s : Session} {text : String}

/-- A program that is run is not rejected. -/
theorem interpret_cases (fuel : Nat) (host : Host) (s : Session) (program : List (Stmt Address)) :
    let r := (s.interpret fuel host program).1
    r.verdict = .success ∨ (∃ e, r.verdict = .failed e) ∨ (∃ f, r.verdict = .aborted f) ∨
      r.verdict = .unfinished := by
  unfold interpret
  split <;> simp

theorem rejects {v : Verdict} (hv : v.isRejection = true) (hnotices : v.notices ≠ []) :
    s.Rejects s ⟨v, #[]⟩ := by
  have hanswer : v.answer? = some (.ok false) ∧ v.isFailure = false := by
    cases v <;> first | exact ⟨rfl, rfl⟩ | cases hv
  exact ⟨hanswer.1, hv, hanswer.2, rfl, hnotices, v.errors_eq_notices, rfl, fun _ => rfl⟩

/-- A text is rejected, or else run. -/
theorem run_cases (fuel : Nat) (host : Host) (s : Session) (text : String) :
    s.Rejects (s.run fuel host text).2 (s.run fuel host text).1 ∨
      ∃ program, s.run fuel host text = s.interpret fuel host program := by
  obtain ⟨parsed, hparse⟩ := parse_scan host.frames text
  unfold run runTokens
  rw [hparse]
  simp only
  split
  next hreports =>
    have htold : Diagnostic.told parsed.reports ≠ [] := told_ne_nil hparse hreports
    exact .inl (rejects rfl (by simpa [Verdict.notices] using htold))
  next =>
    split
    next hcheck => exact .inl (rejects rfl (by simpa [Verdict.notices] using hcheck))
    next => exact .inr ⟨_, rfl⟩

theorem run_exactly_one {b : Bool}
    (hreturned : (s.run fuel host text).1.verdict.answer? = some (.ok b)) :
    ExactlyOne (s.run fuel host text).1.Succeeds
      (s.Rejects (s.run fuel host text).2 (s.run fuel host text).1)
      (s.run fuel host text).1.Fails := by
  apply ExactlyOne.of_flags (fun h => ⟨h.rejection, h.failure⟩) (fun h => ⟨h.rejection, h.failure⟩)
    (fun h => ⟨h.rejection, h.failure⟩)
  rcases run_cases fuel host s text with hrejects | ⟨program, hrun⟩
  · exact .inr (.inl hrejects)
  · rw [hrun] at hreturned ⊢
    rcases interpret_cases fuel host s program with hv | ⟨e, hv⟩ | ⟨f, hv⟩ | hv
    · refine .inl ⟨?_, ?_, ?_, ?_⟩ <;> simp [hv, Verdict.answer?, Verdict.isRejection,
        Verdict.isFailure, RunReport.errors, Verdict.errors]
    · refine .inr (.inr ⟨?_, ?_, ?_, e, hv, ?_⟩) <;> simp [hv, Verdict.answer?,
        Verdict.isRejection, Verdict.isFailure, RunReport.errors, Verdict.errors,
        RuntimeError.line, String.append_assoc]
    · simp [hv, Verdict.answer?] at hreturned
    · simp [hv, Verdict.answer?] at hreturned

end Session

namespace CommandLine

variable {fuel : Nat} {host : Host} {r : RunReport}

theorem exit_of_succeeds (h : r.Succeeds) : Exit.ofVerdict r.verdict = .status 0 := by
  have hanswer := h.answer
  cases hv : r.verdict <;> simp [hv, Verdict.answer?] at hanswer
  rfl

theorem exit_of_rejection (h : r.verdict.isRejection = true) :
    Exit.ofVerdict r.verdict = .status 65 := by
  cases hv : r.verdict <;> simp [hv, Verdict.isRejection] at h <;> rfl

theorem exit_of_fails (h : r.Fails) : Exit.ofVerdict r.verdict = .status 70 := by
  obtain ⟨e, hv, -⟩ := h.errors
  rw [hv]
  rfl

/-- Whoever gets an answer makes a status of it. -/
theorem exit_of_answer {b : Bool} (h : r.verdict.answer? = some (.ok b)) :
    ∃ code, Exit.ofVerdict r.verdict = .status code := by
  cases hv : r.verdict with
  | success | badSyntax | badScopes | failed => exact ⟨_, rfl⟩
  | aborted | garbled | unfinished => simp [hv, Verdict.answer?] at h

theorem runLines_exit {s : Session} {lines : List (Host × String)}
    (h : ∀ r ∈ s.runAll fuel lines, ∃ b, r.verdict.answer? = some (.ok b)) :
    (runLines fuel s lines).exit = .status 0 := by
  induction lines generalizing s with
  | nil => rfl
  | cons line lines ih =>
    obtain ⟨b, hfirst⟩ := h (s.run fuel line.1 line.2).1 List.mem_cons_self
    obtain ⟨code, hcode⟩ := exit_of_answer hfirst
    have hrest := ih fun r hr => h r (List.mem_cons_of_mem _ hr)
    simp only [runLines, hcode]
    exact hrest

/-- Whatever the session, a text whose run ends with an answer succeeds, is rejected or fails, and
just one of these. The command that runs a script makes 0, 65 or 70 of it; when it runs the lines of
its input, it ends with 0 whatever their cases were. -/
theorem run_ends_in_one_case (fuel : Nat) :
    (∀ (host : Host) (s : Session) (text : String) (b : Bool),
      (s.run fuel host text).1.verdict.answer? = some (.ok b) →
        ExactlyOne (s.run fuel host text).1.Succeeds
          (s.Rejects (s.run fuel host text).2 (s.run fuel host text).1)
          (s.run fuel host text).1.Fails) ∧
    (∀ (hosts : Nat → Host) (folder : Folder) (args : List String) (input file source : String),
      Request.ofArguments args = .script file → isScript file = true →
        folder.read? file = some source →
          let (report, after) :=
            Session.new.run fuel (hosts 0) (String.ofList (Text.unifyNewlines source.toList))
          let exit := (run fuel hosts folder args input).exit
          (report.Succeeds → exit = .status 0) ∧
            (Session.new.Rejects after report → exit = .status 65) ∧
            (report.Fails → exit = .status 70)) ∧
    (∀ (hosts : Nat → Host) (folder : Folder) (args : List String) (input : String),
      Request.ofArguments args = .prompt →
        (∀ r ∈ Session.new.runAll fuel (prompted hosts input),
          ∃ b, r.verdict.answer? = some (.ok b)) →
        (run fuel hosts folder args input).exit = .status 0) := by
  refine ⟨fun host s text b => Session.run_exactly_one, ?_, ?_⟩
  · intro hosts folder args input file source hargs hscript hread
    have hexit : (run fuel hosts folder args input).exit = Exit.ofVerdict
        (Session.new.run fuel (hosts 0)
          (String.ofList (Text.unifyNewlines source.toList))).1.verdict := by
      simp only [run, hargs, hscript, hread, if_true]
      rfl
    simp only [hexit]
    exact ⟨exit_of_succeeds, fun h => exit_of_rejection h.rejection, exit_of_fails⟩
  · intro hosts folder args input hargs hreturned
    have hlines := runLines_exit hreturned
    simp only [run, hargs]
    exact hlines

/-- Three scripts, one for each case, and the same texts as lines of the input. -/
theorem run_ends_in_one_case_scripts :
    let hosts (_ : Nat) : Host := .still 99 0
    let first (text : String) := Session.new.run 9 (hosts 0) text
    let folder (text : String) : Folder := ⟨[("a.shim", text)], []⟩
    let exit (text : String) := (run 9 hosts (folder text) ["a.shim"] "").exit
    let input := "nil;\n)\n-nil;\n"
    (∀ text ∈ ["nil;", ")", "-nil;"], (∃ b, (first text).1.verdict.answer? = some (.ok b)) ∧
      ExactlyOne (first text).1.Succeeds (Session.new.Rejects (first text).2 (first text).1)
        (first text).1.Fails) ∧
      Request.ofArguments ["a.shim"] = .script "a.shim" ∧ isScript "a.shim" = true ∧
      (∀ text, (folder text).read? "a.shim" = some text) ∧
      (first "nil;").1.Succeeds ∧ exit "nil;" = .status 0 ∧
      Session.new.Rejects (first ")").2 (first ")").1 ∧ exit ")" = .status 65 ∧
      (first "-nil;").1.Fails ∧ exit "-nil;" = .status 70 ∧
      Request.ofArguments [] = .prompt ∧
      (∀ r ∈ Session.new.runAll 9 (prompted hosts input), ∃ b, r.verdict.answer? = some (.ok b)) ∧
      (run 9 hosts ⟨[], []⟩ [] input).exit = .status 0 := by
  intro hosts first folder exit input
  obtain ⟨hone, hscript, hprompt⟩ := run_ends_in_one_case 9
  have hnil : (first "nil;").1.verdict = .success := by decide +kernel
  have hparen : (first ")").1.verdict =
      .badSyntax [⟨⟨.rightParen, ")", ⟨1, 1⟩⟩, .noExpression, false⟩] := by decide +kernel
  have hminus : (first "-nil;").1.verdict =
      .failed ⟨⟨.minus, "-", ⟨1, 1⟩⟩, .operand .nil⟩ := by decide +kernel
  have hanswer (text : String) (htext : text ∈ ["nil;", ")", "-nil;"]) :
      ∃ b, (first text).1.verdict.answer? = some (.ok b) := by
    simp only [List.mem_cons, List.not_mem_nil, or_false] at htext
    rcases htext with rfl | rfl | rfl
    · exact ⟨true, by rw [hnil]; rfl⟩
    · exact ⟨false, by rw [hparen]; rfl⟩
    · exact ⟨false, by rw [hminus]; rfl⟩
  have hcase (text : String) (htext : text ∈ ["nil;", ")", "-nil;"]) :
      ExactlyOne (first text).1.Succeeds (Session.new.Rejects (first text).2 (first text).1)
        (first text).1.Fails := by
    obtain ⟨b, hb⟩ := hanswer text htext
    exact hone _ _ _ b hb
  have hsucceeds : (first "nil;").1.Succeeds := by
    rcases hcase "nil;" (by simp) with ⟨h, -, -⟩ | ⟨-, h, -⟩ | ⟨-, -, h⟩
    · exact h
    · cases hnil ▸ h.rejection
    · cases hnil ▸ h.failure
  have hrejects : Session.new.Rejects (first ")").2 (first ")").1 := by
    rcases hcase ")" (by simp) with ⟨h, -, -⟩ | ⟨-, h, -⟩ | ⟨-, -, h⟩
    · cases hparen ▸ h.rejection
    · exact h
    · cases hparen ▸ h.failure
  have hfails : (first "-nil;").1.Fails := by
    rcases hcase "-nil;" (by simp) with ⟨h, -, -⟩ | ⟨-, h, -⟩ | ⟨-, -, h⟩
    · cases hminus ▸ h.failure
    · cases hminus ▸ h.failure
    · exact h
  have hargs : Request.ofArguments ["a.shim"] = .script "a.shim" := by decide +kernel
  have hparts : components "a.shim" = ["a.shim"] := by
    rw [components, String.splitOn, if_neg (by decide)]
    -- one step for each character, and one at the end
    iterate 6 rw [String.splitOnAux, if_neg (by decide), if_neg (by decide)]
    rw [String.splitOnAux, if_pos (by decide)]
    decide
  have hextension : isScript "a.shim" = true := by
    rw [isScript, fileName, hparts]
    decide +kernel
  have hread (text : String) : (folder text).read? "a.shim" = some text := by
    rw [Folder.read?, hparts]
    simp [folder, Folder.follow?, Folder.isDirectory, hparts]
  have hstatus (text : String) := hscript hosts (folder text) ["a.shim"] "" "a.shim" text hargs
    hextension (hread text)
  have hreturned : ∀ r ∈ Session.new.runAll 9 (prompted hosts input),
      ∃ b, r.verdict.answer? = some (.ok b) := by
    have hanswers : (Session.new.runAll 9 (prompted hosts input)).map (·.verdict.answer?) =
        [some (.ok true), some (.ok false), some (.ok false)] := by decide +kernel
    intro r hr
    have hmem := List.mem_map_of_mem (f := (·.verdict.answer?)) hr
    rw [hanswers] at hmem
    simp only [List.mem_cons, List.not_mem_nil, or_false] at hmem
    rcases hmem with h | h | h
    · exact ⟨true, h⟩
    · exact ⟨false, h⟩
    · exact ⟨false, h⟩
  exact ⟨fun text htext => ⟨hanswer text htext, hcase text htext⟩, hargs, hextension, hread,
    hsucceeds, (hstatus "nil;").1 hsucceeds, hrejects, (hstatus ")").2.1 hrejects, hfails,
    (hstatus "-nil;").2.2 hfails, rfl, hreturned, hprompt hosts ⟨[], []⟩ [] input rfl hreturned⟩

end CommandLine
end Scriptlet

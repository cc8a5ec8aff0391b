import Scriptlet.Proofs.Evaluation.Alike
import Scriptlet.Proofs.Faults.Sessions
import Scriptlet.Proofs.Interpreter.Fuel

/-! What becomes of a program, whatever the fuel is. -/
namespace Scriptlet

/-- The run was ended by a call for which there were not enough frames. -/
def Verdict.IsOverflow (v : Verdict) : Prop := ∃ paren, v = .failed ⟨paren, .stackOverflow⟩

/-- The lines that have been printed. -/
def RunReport.lines (r : RunReport) : List String := r.printed.toList.map Value.print

theorem RunReport.output_congr {r r' : RunReport} (h : r'.lines = r.lines) :
    r'.output = r.output := by
  apply Value.lines_congr
  apply Array.toList_inj.1
  rw [Array.toList_map, Array.toList_map]
  exact h

namespace Course

variable {α : Type}

/-- What is reported of a run. -/
def report : Course α → RunReport
  | done _ s => ⟨.success, s.machine.printed⟩
  | stopped why s => ⟨.ofStop why, s.machine.printed⟩
  | cut s => ⟨.unfinished, s.machine.printed⟩

theorem printed_report (r : Course α) : r.report.printed = r.state.machine.printed := by
  cases r <;> rfl

theorem Extends.printed {r r' : Course α} (h : r.Extends r') :
    r.report.printed.toList <+: r'.report.printed.toList := by
  rw [printed_report, printed_report]
  cases h with
  | same => exact List.prefix_refl _
  | cut h => exact h

theorem Extends.report_eq {r r' : Course α} (h : r.Extends r')
    (hfinished : r.report.verdict ≠ .unfinished) : r'.report = r.report := by
  cases h with
  | same => rfl
  | cut => exact absurd rfl hfinished

end Course

namespace Session

variable {s : Session} {fuel more : Nat} {host : Host} {program : List (Stmt Address)}

/-- The run of a program, as far as the fuel lasts. -/
def course (s : Session) (fuel : Nat) (host : Host) (program : List (Stmt Address)) :
    Course Unit :=
  (Interpreter.execEach fuel (.start host) program).run (s.interpreter [Machine.globals])

theorem report_course (s : Session) (fuel : Nat) (host : Host) (program : List (Stmt Address)) :
    (s.course fuel host program).report = (s.interpret fuel host program).1 := by
  have hfollows : (s.course fuel host program).outcome =
      execEach fuel (context host) program s.machine :=
    follows_execEach fuel (.start host) program _ rfl
  rw [interpret_report, ← hfollows]
  cases s.course fuel host program with
  | done | cut => rfl
  | stopped why => cases why <;> rfl

theorem course_extends (h : fuel ≤ more) :
    (s.course fuel host program).Extends (s.course more host program) :=
  extends_execEach h (.start host) program _

/-- With more fuel, a program prints what it did, and perhaps more. -/
theorem lines_more (h : fuel ≤ more) :
    (s.interpret fuel host program).1.lines <+: (s.interpret more host program).1.lines := by
  rw [← report_course, ← report_course]
  exact (course_extends h).printed.map _

/-- What came to an end with some fuel comes to the same end with more. -/
theorem report_more (h : fuel ≤ more)
    (hfinished : (s.interpret fuel host program).1.verdict ≠ .unfinished) :
    (s.interpret more host program).1 = (s.interpret fuel host program).1 := by
  rw [← report_course] at hfinished
  rw [← report_course, ← report_course]
  exact (course_extends h).report_eq hfinished

/-- The program ends so in a new session, with any amount of fuel that is enough. -/
def Ends (host : Host) (program : List (Stmt Address)) (verdict : Verdict) (output : String) :
    Prop :=
  verdict ≠ .unfinished ∧ ∃ enough, ∀ fuel, enough ≤ fuel →
    (new.interpret fuel host program).1.verdict = verdict ∧
      (new.interpret fuel host program).1.output = output

/-- However much fuel there is, the program does not end. -/
def Diverges (host : Host) (program : List (Stmt Address)) : Prop :=
  ∀ fuel, (new.interpret fuel host program).1.verdict = .unfinished

/-- The program prints these lines first, whether it ends or not. -/
def Prints (host : Host) (program : List (Stmt Address)) (lines : List String) : Prop :=
  ∃ fuel, lines <+: (new.interpret fuel host program).1.lines

theorem ends_of_finished
    (hfinished : (new.interpret fuel host program).1.verdict ≠ .unfinished) :
    Ends host program (new.interpret fuel host program).1.verdict
      (new.interpret fuel host program).1.output := by
  refine ⟨hfinished, fuel, fun more hmore => ?_⟩
  rw [report_more hmore hfinished]
  exact ⟨rfl, rfl⟩

theorem Ends.finished {verdict : Verdict} {output : String}
    (h : Ends host program verdict output) :
    ∃ fuel, (new.interpret fuel host program).1.verdict = verdict ∧
      (new.interpret fuel host program).1.output = output :=
  let ⟨_, fuel, hfuel⟩ := h
  ⟨fuel, hfuel fuel (Nat.le_refl _)⟩

theorem Ends.unique {verdict verdict' : Verdict} {output output' : String}
    (h : Ends host program verdict output) (h' : Ends host program verdict' output') :
    verdict = verdict' ∧ output = output' := by
  obtain ⟨-, enough, hall⟩ := h
  obtain ⟨-, enough', hall'⟩ := h'
  obtain ⟨rfl, rfl⟩ := hall (max enough enough') (Nat.le_max_left ..)
  exact hall' (max enough enough') (Nat.le_max_right ..)

/-- There is nothing else that can become of a program. -/
theorem ends_or_diverges (host : Host) (program : List (Stmt Address)) :
    (∃ verdict output, Ends host program verdict output) ∨ Diverges host program := by
  by_cases hdiverges : Diverges host program
  · exact .inr hdiverges
  · obtain ⟨fuel, hfinished⟩ := not_forall.1 hdiverges
    exact .inl ⟨_, _, ends_of_finished hfinished⟩

/-- The program ends since there are not enough frames for its calls. -/
def Overflows (host : Host) (program : List (Stmt Address)) : Prop :=
  ∃ verdict output, verdict.IsOverflow ∧ Ends host program verdict output

theorem not_isOverflow (h : ¬ Overflows host program) (fuel : Nat) :
    ¬ (new.interpret fuel host program).1.verdict.IsOverflow := by
  intro hoverflow
  have hfinished : (new.interpret fuel host program).1.verdict ≠ .unfinished := by
    obtain ⟨paren, hparen⟩ := hoverflow
    rw [hparen]
    simp
  exact h ⟨_, _, hoverflow, ends_of_finished hfinished⟩

theorem Ends.not_overflows {verdict : Verdict} {output : String}
    (h : Ends host program verdict output) (hother : ¬ verdict.IsOverflow) :
    ¬ Overflows host program := by
  rintro ⟨verdict', output', hoverflow, h'⟩
  rw [(h'.unique h).1] at hoverflow
  exact hother hoverflow

/-- What a program prints that ends is known when it has ended. -/
theorem prints_iff_of_finished {lines : List String}
    (hfinished : (new.interpret fuel host program).1.verdict ≠ .unfinished) :
    Prints host program lines ↔ lines <+: (new.interpret fuel host program).1.lines := by
  refine ⟨fun ⟨more, hlines⟩ => ?_, fun hlines => ⟨fuel, hlines⟩⟩
  rw [← report_more (Nat.le_max_right more fuel) hfinished]
  exact hlines.trans (lines_more (Nat.le_max_left more fuel))

end Session
end Scriptlet

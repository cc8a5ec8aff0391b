import Scriptlet.Proofs.Counting.Faithful
import Scriptlet.Proofs.Parsing.Resume

/-! What is left of a declaration that has been parsed, or given up: nothing but what was read. -/
namespace Scriptlet.Parse

variable {room : Nat} {tokens : List Token}

/-- A parser that counts parses the same. Each of its calls of the rule for declarations, wherever
it is made and however it ends, leaves the counters as they were. After each declaration of the top
level the parser goes on as one that begins there. -/
theorem declarations_leave_no_trace (room : Nat) (tokens : List Token) :
    (∀ record, record? room tokens = some record →
      parse room tokens = record.ending.close record.statements ∧
      record.last.counters = .zero ∧
      ∀ c ∈ record.last.calls, c.Made (operandRules + room) ∧ c.left = c.entered) ∧
    ∀ statements s, Between room tokens statements s →
      parse room tokens = (parse room s.stream).map (Parsed.after statements s.reports) := by
  refine ⟨fun record hrecord => ⟨parse_of_record hrecord, ?_, fun c hc => ?_⟩,
    fun statements s hbetween => hbetween.resume⟩
  · obtain ⟨s, -, hlater⟩ := record_later hrecord
    exact hlater.counters
  · exact ⟨made_of_record hrecord hc, (ends_of_record hrecord hc).1⟩

/-- After a declaration that was given up there is no statement more than before. -/
theorem Between.given_up {statements : List (Stmt Unit)} {s : State} (n : Nat) {P : State → Bool}
    (h : Between room tokens statements s) (hend : s.atEnd = false)
    (hd : (match declaration n (.top (operandRules + room)) s with
      | .ok none r => P r | _ => false) = true) :
    ∃ r, Between room tokens statements r ∧ P r = true := by
  cases hdeclaration : declaration n (.top (operandRules + room)) s with
  | ok d r =>
    rw [hdeclaration] at hd
    cases d with
    | some st => cases hd
    | none =>
      have hnext := h.next hend hdeclaration
      rw [Option.toList_none, List.append_nil] at hnext
      exact ⟨r, hnext, hd⟩
  | bad r | halt cause r =>
    rw [hdeclaration] at hd
    cases hd

/-- The first error is in the body of a loop, the second one in the head of a function. The jump
after them stands in no loop. -/
theorem declarations_leave_no_trace_loop :
    let tokens := scan "while (x) function; break;"
    (∃ record, record? 0 tokens = some record ∧ record.jumps.map Site.loops = [0] ∧
      record.last.calls.length = 3 ∧ ∀ c ∈ record.last.calls, c.left = c.entered) ∧
    ∃ s, Between 0 tokens [] s ∧ s.current.kind = .kwBreak ∧
      parse 0 tokens = (parse 0 s.stream).map (Parsed.after [] s.reports) := by
  intro tokens
  obtain ⟨hrecord, hresume⟩ := declarations_leave_no_trace 0 tokens
  constructor
  · have hsome : (record? 0 tokens).isSome = true := by decide +kernel
    have hseen : (record? 0 tokens).all fun record =>
        record.jumps.map Site.loops = [0] ∧ record.last.calls.length = 3 := by decide +kernel
    obtain ⟨record, h⟩ := Option.isSome_iff_exists.1 hsome
    rw [h, Option.all_some, decide_eq_true_eq] at hseen
    exact ⟨record, h, hseen.1, hseen.2, fun c hc => ((hrecord record h).2.2 c hc).2⟩
  · let s := (State.start? tokens).get (by decide +kernel)
    have hstart : Between 0 tokens [] s := .start (Option.some_get _).symm
    let stopsAtJump (r : State) : Bool :=
      match declaration 50 (.top operandRules) r with
      | .ok none u => u.current.kind == .kwBreak
      | _ => false
    obtain ⟨r, hr, hand⟩ := hstart.given_up 50 (P := fun r => !r.atEnd && stopsAtJump r)
      (by decide +kernel) (by decide +kernel)
    obtain ⟨hend, hstops⟩ := Bool.and_eq_true_iff.1 hand
    obtain ⟨u, hu, hkind⟩ := hr.given_up 50 (by simpa using hend) hstops
    exact ⟨u, hu, eq_of_beq hkind, hresume [] u hu⟩

end Scriptlet.Parse

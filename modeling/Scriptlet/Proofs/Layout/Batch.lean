import Scriptlet.Proofs.Layout.Sessions
import Scriptlet.Proofs.Layout.Still
import Scriptlet.Proofs.Parsing.Completeness
import Scriptlet.Proofs.Scanning.Seam

/-! Two texts run one after the other do what they do as one text, the one on top of the other. -/
namespace Scriptlet

open Grammar

section Pieces

variable {ρ : Type}

mutual

/-- At top level nothing is kept of a declaration. -/
theorem Stmt.declare_top : ∀ s : Stmt ρ, s.declare [] = []
  | .var _ _ | .function _ _ _ => rfl
  | .block _ | .jump _ _ | .expression _ | .print _ | .give _ _ => rfl
  | .ifThen _ body | .loop _ body | .doLoop body _ => body.declare_top
  | .ifElse _ first second | .loopStep _ first second => by
    rw [Stmt.declare, first.declare_top, second.declare_top]
  | .switch _ arms => arms.declare_top

theorem Arms.declare_top : ∀ arms : Arms ρ, arms.declare [] = []
  | .done => rfl
  | .otherwise body => body.declare_top
  | .case _ body rest => by rw [Arms.declare, body.declare_top, rest.declare_top]

end

theorem resolve_append (ss ts : List (Stmt ρ)) : resolve (ss ++ ts) = resolve ss ++ resolve ts := by
  unfold resolve
  induction ss with
  | nil => rfl
  | cons s ss ih =>
    rw [List.cons_append, Stmt.resolveAll, Stmt.resolveAll, s.declare_top, ih, List.cons_append]

theorem check_append (ss ts : List (Stmt ρ)) : check (ss ++ ts) = check ss ++ check ts := by
  unfold check
  induction ss with
  | nil => rfl
  | cons s ss ih =>
    rw [List.cons_append, Stmt.checkAll, Stmt.checkAll, s.declare_top, ih, List.append_assoc]

theorem spelledBy_append {inLoop : Bool} {depth : Nat} {ss ss' : List (Stmt Unit)}
    {ts us : List Token} (h : (Clause.list inLoop depth ss).SpelledBy ts)
    (h' : (Clause.list inLoop depth ss').SpelledBy us) :
    (Clause.list inLoop depth (ss ++ ss')).SpelledBy (ts ++ us) := by
  induction ss generalizing ts with
  | nil =>
    cases h
    exact h'
  | cons s ss ih =>
    cases h with
    | @cons _ _ _ _ first rest hs hss =>
      rw [List.append_assoc]
      exact .cons hs (ih hss)

theorem execEach_append (fuel : Nat) (c : Context) (ss ts : List (Stmt Address)) (m : Machine) :
    execEach fuel c (ss ++ ts) m =
      (execEach fuel c ss m).bind fun _ m => execEach fuel c ts m := by
  induction ss generalizing m with
  | nil => rfl
  | cons s ss ih =>
    rw [List.cons_append, execEach, execEach]
    cases exec fuel c s m with
    | done flow m => exact ih m
    | stopped why m => rfl
    | outOfFuel m => rfl

end Pieces

theorem Value.lines_append (vs ws : Array Value) : lines (vs ++ ws) = lines vs ++ lines ws := by
  have hinit (text : String) (ws : List Value) :
      ws.foldl (fun text v => text ++ v.print ++ "\n") text =
        text ++ ws.foldl (fun text v => text ++ v.print ++ "\n") "" := by
    induction ws generalizing text with
    | nil => simp
    | cons w ws ih =>
      rw [List.foldl_cons, List.foldl_cons, ih, ih ("" ++ w.print ++ "\n")]
      simp [String.append_assoc]
  simp only [lines, ← Array.foldl_toList, Array.toList_append, List.foldl_append]
  exact hinit _ _

/-- Nothing but what was printed before shows in the report. -/
theorem Outcome.report_still (before : Past) (o : Outcome Unit) :
    (o.moved .still before id).report = ⟨o.report.verdict, before.printed ++ o.report.printed⟩ := by
  rcases o with ⟨-, m⟩ | ⟨e | f, m⟩ | m
  all_goals simp only [moved, report, Stop.moved, RuntimeError.moved, Token.moved_still,
    Machine.moved_still]

namespace Session

variable {fuel : Nat} {host : Host} {s : Session} {tokens : List Token} {program : List (Stmt Unit)}

theorem runTokens_accepted (hparse : parse host.frames tokens = .ok ⟨program, []⟩)
    (hcheck : check program = []) :
    s.runTokens fuel host tokens = s.interpret fuel host (resolve program) := by
  simp [runTokens, hparse, hcheck]

/-- A program that was run to its end. -/
theorem runTokens_success (h : (s.runTokens fuel host tokens).1.verdict = .success) :
    ∃ program m, parse host.frames tokens = .ok ⟨program, []⟩ ∧ check program = [] ∧
      execEach fuel (context host) (resolve program) s.machine = .done () m ∧
      s.runTokens fuel host tokens = (⟨.success, m.printed⟩, ofMachine m) := by
  cases hparse : parse host.frames tokens with
  | error f => simp [runTokens, hparse] at h
  | ok parsed =>
    obtain ⟨program, reports⟩ := parsed
    by_cases hreports : reports = []
    · subst hreports
      by_cases hcheck : check program = []
      · rw [runTokens_accepted hparse hcheck] at h ⊢
        rw [interpret_report] at h
        cases hrun : execEach fuel (context host) (resolve program) s.machine with
        | done u m => exact ⟨program, m, rfl, hcheck, hrun, by rw [interpret, hrun]⟩
        | stopped why m =>
          rw [hrun] at h
          cases why <;> cases h
        | outOfFuel m =>
          rw [hrun] at h
          cases h
      · simp [runTokens, hparse, hcheck] at h
    · simp [runTokens, hparse, hreports] at h

/-- An error of a program is blamed on one of its tokens. The layout that moves all other tokens
leaves the program as it is, and so the report. -/
theorem failed_token {e : RuntimeError}
    (h : (new.runTokens fuel host tokens).1.verdict = .failed e) : e.token ∈ tokens := by
  by_contra hnot
  let l : Layout := fun t => if t ∈ tokens then t.pos else ⟨t.pos.line + 1, t.pos.column⟩
  have htokens : tokens.map (Token.moved l) = tokens := by
    refine (List.map_congr_left fun t ht => ?_).trans (List.map_id _)
    simp [Token.moved, l, ht]
  have hmoved := runTokens_moved (l := l) fuel host new tokens
  rw [htokens, new_moved] at hmoved
  have hverdict : (new.runTokens fuel host tokens).1.verdict =
      (new.runTokens fuel host tokens).1.verdict.moved l :=
    congrArg (fun r => r.1.verdict) hmoved
  rw [h, Verdict.moved, Verdict.failed.injEq] at hverdict
  have hline : e.token.pos.line = e.token.pos.line + 1 := by
    conv => lhs; rw [hverdict]
    simp [RuntimeError.moved, Token.moved, l, hnot]
  omega

/-- On a host whose clock stands still, two programs run as one run as the first one does, and then
as the second one does on what the first one leaves. -/
theorem interpret_batch {frames : Nat} {now : Int} {m : Machine} {program₁ : List (Stmt Unit)}
    (hrun : execEach fuel (context (.still frames now)) (resolve program₁) new.machine =
      .done () m) :
    (new.interpret fuel (.still frames now) (resolve (program₁ ++ program))).1 =
      let second := ((ofMachine m).interpret fuel (.still frames now) (resolve program)).1
      ⟨second.verdict, m.printed ++ second.printed⟩ := by
  let before : Past := ⟨m.printed, m.readings⟩
  have hmachine : (ofMachine m).machine.moved .still before = m := by
    rw [Machine.moved_still]
    simp [machine, ofMachine, before]
  have hcontext : (context (.still frames now)).moved .still before =
      context (.still frames now) := rfl
  have hsecond := execEach_moved (l := .still) before fuel (context (.still frames now))
    (resolve program) (ofMachine m).machine
  rw [hmachine, hcontext, Stmt.movedAll_still] at hsecond
  rw [interpret_report, interpret_report, resolve_append, execEach_append, hrun, Outcome.bind_done,
    hsecond, Outcome.report_still]

end Session

section

/-- Takes the lower of two texts back to where it was before the upper one was put on top of it. -/
def Layout.back (k : Nat) : Layout := fun t =>
  if t.pos.line ≤ k then t.pos else ⟨t.pos.line - k, t.pos.column⟩

variable {upper lower : String}

theorem Token.moved_back_upper {t : Token} (ht : t ∈ scan upper) :
    t.moved (.back (lineCount upper)) = t := by
  simp [Token.moved, Layout.back, (scan_lines ht).2]

theorem scan_back (upper : String) :
    (scan upper).map (Token.moved (.back (lineCount upper))) = scan upper :=
  (List.map_congr_left fun _ ht => Token.moved_back_upper ht).trans (List.map_id _)

theorem Token.moved_back_lower {t : Token} (k : Nat) (ht : t ∈ scan lower) :
    (t.moved (.down k)).moved (.back k) = t := by
  have := (scan_lines ht).1
  simp [Token.moved, Layout.back, Layout.down, show ¬ t.pos.line + k ≤ k by omega]

/-- The tokens of the lower text, where they are below the upper one. -/
def scanBelow (upper lower : String) : List Token :=
  (scan lower).map (Token.moved (.down (lineCount upper)))

theorem scanBelow_back (upper lower : String) :
    (scanBelow upper lower).map (Token.moved (.back (lineCount upper))) = scan lower := by
  rw [scanBelow, List.map_map]
  exact (List.map_congr_left fun t ht => Token.moved_back_lower _ ht).trans (List.map_id _)

/-- How a text ends that is run after another one, and how it ends if its tokens are the ones below
that one: in the same way. An error at a token of the upper text is the same then, one at a token of
the lower text is at the same token below the upper text. -/
inductive Verdict.Below (upper lower : String) : Verdict → Verdict → Prop where
  | success : Below upper lower .success .success
  | aborted (f : Fault) : Below upper lower (.aborted f) (.aborted f)
  | unfinished : Below upper lower .unfinished .unfinished
  | upper {e : RuntimeError} (htoken : e.token ∈ scan upper)
    (hline : e.token.pos.line ≤ lineCount upper) : Below upper lower (.failed e) (.failed e)
  | lower {e : RuntimeError} (htoken : e.token ∈ scan lower) :
    Below upper lower (.failed e) (.failed (e.moved (.down (lineCount upper))))

/-- The two cases of an error exclude each other: its line is below the upper text just when the
error moved with the tokens of the lower one. -/
theorem Verdict.Below.seam {e e' : RuntimeError}
    (h : Below upper lower (.failed e) (.failed e')) :
    if e'.token.pos.line ≤ lineCount upper then e' = e ∧ e.token ∈ scan upper
    else e' = e.moved (.down (lineCount upper)) ∧ e.token ∈ scan lower := by
  cases h with
  | upper htoken hline =>
    rw [if_pos hline]
    exact ⟨rfl, htoken⟩
  | lower htoken =>
    have hbelow : ¬ e.token.pos.line + lineCount upper ≤ lineCount upper := by
      have := (scan_lines htoken).1
      omega
    have hline : ¬ (e.moved (.down (lineCount upper))).token.pos.line ≤ lineCount upper := hbelow
    rw [if_neg hline]
    exact ⟨rfl, htoken⟩

/-- The text of both has the trees of both. -/
theorem parse_batch {room : Nat} {program program' : List (Stmt Unit)}
    (hupper : parse room (scan upper) = .ok ⟨program, []⟩)
    (hlower : parse room (scanBelow upper lower) = .ok ⟨program', []⟩) :
    parse room (scan (upper ++ "\n" ++ lower)) = .ok ⟨program ++ program', []⟩ ∧
      ∀ t ∈ scan (upper ++ "\n" ++ lower), t ∈ scan upper ∨ t ∈ scanBelow upper lower := by
  obtain ⟨ts, eof, hscan, heof, hts⟩ := scan_end upper
  obtain ⟨us, eof', hscan', heof', hus⟩ := scan_end lower
  let down := Token.moved (.down (lineCount upper))
  have hbelow : scanBelow upper lower = us.map down ++ [down eof'] := by
    rw [scanBelow, hscan', List.map_append]
    rfl
  have husBelow : ∀ t ∈ us.map down, t.kind ≠ .eof := by
    intro t ht
    obtain ⟨u, hu, rfl⟩ := List.mem_map.1 ht
    exact hus u hu
  have hspelled : ProgramSpelledBy program ts := Parse.parse_spelledBy hts (hscan ▸ hupper)
  have hspelled' : ProgramSpelledBy program' (us.map down) :=
    Parse.parse_spelledBy husBelow (hbelow ▸ hlower)
  have hclosed : ∀ t ∈ scan upper, ¬ t.Open := by
    rintro t ht ⟨herror, -⟩
    rw [hscan] at ht
    rcases List.mem_append.1 ht with ht | ht
    · exact hspelled.proper t ht herror
    · rw [List.mem_singleton.1 ht, heof] at herror
      cases herror
  have hbatch : scan (upper ++ "\n" ++ lower) = (scan upper).dropLast ++ scanBelow upper lower :=
    scan_append hclosed lower
  have hroom : Stmt.rulesAll (program ++ program') ≤ Parse.operandRules + room := by
    rw [Parse.rulesAll_append]
    exact Nat.max_le.2 ⟨rules_le hupper, rules_le hlower⟩
  refine ⟨?_, fun t ht => ?_⟩
  · rw [hbatch, hscan, List.dropLast_concat, hbelow, ← List.append_assoc]
    exact Parse.parse_of_spelledBy heof' (spelledBy_append hspelled hspelled') hroom
  · rw [hbatch] at ht
    exact (List.mem_append.1 ht).imp_left fun h => (List.dropLast_sublist _).subset h

/-- How the lower text ends is how it ends below the upper one, once its tokens are taken back. -/
theorem Outcome.below_back {o : Outcome Unit}
    (htoken : ∀ e, o.report.verdict = .failed e →
      e.token ∈ scan upper ∨ e.token ∈ scanBelow upper lower) :
    (o.report.verdict.moved (.back (lineCount upper))).Below upper lower o.report.verdict := by
  rcases o with _ | ⟨e | f, _⟩ | _
  · exact .success
  · change Verdict.Below upper lower (.failed (e.moved (.back (lineCount upper)))) (.failed e)
    rcases htoken e rfl with hupper | hlower
    · have hback : e.moved (.back (lineCount upper)) = e := by
        simp only [RuntimeError.moved, Token.moved_back_upper hupper]
      rw [hback]
      exact .upper hupper (scan_lines hupper).2
    · obtain ⟨u, hu, htoken⟩ := List.mem_map.1 hlower
      have hback : (e.moved (.back (lineCount upper))).token = u := by
        simp only [RuntimeError.moved, ← htoken, Token.moved_back_lower _ hu]
      have hdown : (e.moved (.back (lineCount upper))).moved (.down (lineCount upper)) = e := by
        rw [RuntimeError.moved, hback, htoken]
        rfl
      have hbelow : Verdict.Below upper lower (.failed (e.moved (.back (lineCount upper)))) _ :=
        .lower (hback ▸ hu)
      rwa [hdown] at hbelow
  · exact .aborted f
  · exact .unfinished

namespace Session

/-- What a text does after another one that succeeded is what it does below that one, but for the
lines in its errors; and the text of both does this, after what the upper text does. -/
theorem batch_agrees {fuel frames : Nat} {now : Int} {program : List (Stmt Unit)}
    (hupper : (new.run fuel (.still frames now) upper).1.verdict = .success)
    (hparse : parse frames (scan lower) = .ok ⟨program, []⟩) (hcheck : check program = []) :
    let host : Host := .still frames now
    let first := new.run fuel host upper
    let second := first.2.run fuel host lower
    let below := first.2.runTokens fuel host (scanBelow upper lower)
    let batch := new.run fuel host (upper ++ "\n" ++ lower)
    second.1.verdict.Below upper lower below.1.verdict ∧ second.1.output = below.1.output ∧
      batch.1.verdict = below.1.verdict ∧
      batch.1.output = first.1.output ++ below.1.output := by
  intro host first second below batch
  have hsucceeds : (new.runTokens fuel host (scan upper)).1.verdict = .success := hupper
  obtain ⟨program₁, m, hparse₁, hcheck₁, hrun₁, hfirst⟩ := runTokens_success hsucceeds
  have hafter : first = (⟨.success, m.printed⟩, ofMachine m) := hfirst
  have hparseBelow : parse host.frames (scanBelow upper lower) =
      .ok ⟨Stmt.movedAll (.down (lineCount upper)) program, []⟩ := by
    rw [scanBelow, parse_moved]
    exact congrArg (Except.map _) hparse
  have hcheckBelow : check (Stmt.movedAll (.down (lineCount upper)) program) = [] := by
    rw [check_moved, hcheck]
    rfl
  obtain ⟨hparseBatch, htokens⟩ := parse_batch hparse₁ hparseBelow
  have hcheckBatch : check (program₁ ++ Stmt.movedAll (.down (lineCount upper)) program) = [] := by
    rw [check_append, hcheck₁, hcheckBelow]
    rfl
  have hbelow : below = (ofMachine m).interpret fuel host
      (resolve (Stmt.movedAll (.down (lineCount upper)) program)) := by
    simp only [below, hafter]
    exact runTokens_accepted hparseBelow hcheckBelow
  have hbatch : batch.1 = ⟨below.1.verdict, m.printed ++ below.1.printed⟩ := by
    have hrun : batch = new.interpret fuel host _ := runTokens_accepted hparseBatch hcheckBatch
    rw [hrun, interpret_batch hrun₁, hbelow]
  -- The session that the first text leaves, and the tokens of the second one, taken back.
  have hback : second.1 = below.1.moved (.back (lineCount upper)) := by
    have htaken := runTokens_moved (l := .back (lineCount upper)) fuel host new (scan upper)
    rw [new_moved, scan_back] at htaken
    have hsame : first.2.moved (.back (lineCount upper)) = first.2 :=
      (congrArg Prod.snd htaken).symm
    have hrun := runTokens_moved (l := .back (lineCount upper)) fuel host first.2
      (scanBelow upper lower)
    rw [hsame, scanBelow_back] at hrun
    exact congrArg Prod.fst hrun
  have hverdict : batch.1.verdict = below.1.verdict := by rw [hbatch]
  have hfailed (e : RuntimeError) (he : below.1.verdict = .failed e) :
      e.token ∈ scan upper ∨ e.token ∈ scanBelow upper lower := by
    have hblamed : (new.runTokens fuel host (scan (upper ++ "\n" ++ lower))).1.verdict =
        .failed e := hverdict.trans he
    exact htokens _ (failed_token hblamed)
  refine ⟨?_, ?_, hverdict, ?_⟩
  · rw [hback]
    rw [hbelow, interpret_report] at hfailed ⊢
    exact Outcome.below_back hfailed
  · rw [hback, RunReport.output_moved]
  · rw [hbatch, hafter]
    exact Value.lines_append _ _

/-- The second text fails, and in the text of both it fails one line further down. -/
theorem batch_agrees_failure :
    let upper := "var a = true;\nprint a;"
    let lower := "print a; print b;"
    let b (line : Nat) : Token := ⟨.identifier, "b", ⟨line, 16⟩⟩
    let program : List (Stmt Unit) := [.print (.reference ⟨.identifier, "a", ⟨1, 7⟩⟩ ()),
      .print (.reference (b 1) ())]
    let host : Host := .still 99 0
    let first := new.run 9 host upper
    let second := first.2.run 9 host lower
    let below := first.2.runTokens 9 host (scanBelow upper lower)
    let batch := new.run 9 host (upper ++ "\n" ++ lower)
    first.1.verdict = .success ∧ parse 99 (scan lower) = .ok ⟨program, []⟩ ∧ check program = [] ∧
      second.1.verdict = .failed ⟨b 1, .undefined⟩ ∧
      second.1.verdict.Below upper lower below.1.verdict ∧
      batch.1.verdict = .failed ⟨b 3, .undefined⟩ ∧
      batch.1.output = first.1.output ++ second.1.output := by
  intro upper lower b program host first second below batch
  have hupper : first.1.verdict = .success := by decide +kernel
  have hparse : parse 99 (scan lower) = .ok ⟨program, []⟩ := by
    have hscan : scan lower = [⟨.kwPrint, "print", ⟨1, 1⟩⟩, ⟨.identifier, "a", ⟨1, 7⟩⟩,
        ⟨.semicolon, ";", ⟨1, 8⟩⟩, ⟨.kwPrint, "print", ⟨1, 10⟩⟩, b 1, ⟨.semicolon, ";", ⟨1, 17⟩⟩,
        ⟨.eof, "", ⟨1, 18⟩⟩] := by decide +kernel
    rw [hscan]
    cbv
  obtain ⟨hverdict, houtput, hbatch, hboth⟩ := batch_agrees hupper hparse rfl
  have hbelow : below.1.verdict = .failed ⟨b 3, .undefined⟩ := by decide +kernel
  have hsecond : second.1.verdict = .failed ⟨b 1, .undefined⟩ := by decide +kernel
  exact ⟨hupper, hparse, rfl, hsecond, hverdict, hbatch.trans hbelow, houtput ▸ hboth⟩

end Session

end

end Scriptlet

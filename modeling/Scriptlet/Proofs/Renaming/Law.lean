import Mathlib.Data.List.Pairwise
import Scriptlet.Proofs.Interpreter.Ends
import Scriptlet.Proofs.Renaming.Lockstep

/-! A local variable can be renamed without changing what a program does. -/
namespace Scriptlet

/-- A program that is run in a new session. -/
inductive Session.Begins (fuel : Nat) (host : Host) (program : List (Stmt Address)) :
    Place → Task → Prop where
  | intro : Begins fuel host program [] (.program fuel (context host) program new.machine)

/-- The same verdict. If a variable is undefined, it is blamed on the same use, which may have the
new name. -/
inductive Verdict.Renamed (r : Renaming) (starts : Place → Task → Prop) :
    Verdict → Verdict → Prop where
  | same {v : Verdict} (h : ∀ name, v ≠ .failed ⟨name, .undefined⟩) : Renamed r starts v v
  | undefined {p : Place} {scopes : Scopes} {n : Nat} {c : Context} {e : Expr Address}
    {m : Machine} {name : Token} (h : Located starts p scopes (.expr n c e m))
    (huse : e.use? = some name) :
    Renamed r starts (.failed ⟨name, .undefined⟩) (.failed ⟨r.used p scopes name, .undefined⟩)

theorem Verdict.Renamed.unfinished_iff {r : Renaming} {starts : Place → Task → Prop}
    {v v' : Verdict} (h : v.Renamed r starts v') : v' = .unfinished ↔ v = .unfinished := by
  cases h with
  | same => rfl
  | undefined => simp

variable {r : Renaming} {starts : Place → Task → Prop} {room : Nat} {tokens : List Token}
  {program : List (Stmt Unit)}

instance : Std.Symm Declaration.Differ := ⟨fun _ _ h hscope hname => h hscope.symm hname.symm⟩

/-- What has the name of a variable of the scope is not a function of the scope. -/
theorem Declaration.function_differs (hparse : parse room tokens = .ok ⟨program, []⟩)
    (hcheck : check program = []) {d f : Declaration} (hd : d ∈ Stmt.localsIn [] program)
    (hvariable : d.isFunction = false) (hf : f ∈ Stmt.localsIn [] program)
    (hfunction : f.isFunction = true) (hscope : f.scope = d.scope) :
    f.name.lexeme ≠ d.name.lexeme := by
  have hne : f ≠ d := by
    rintro rfl
    rw [hvariable] at hfunction
    cases hfunction
  exact (locals_differ hparse hcheck).forall hf hd hne hscope

theorem suits_begins (hparse : parse room tokens = .ok ⟨program, []⟩) (hcheck : check program = [])
    {d : Declaration} (hd : d ∈ Stmt.localsIn [] program) (hvariable : d.isFunction = false)
    {y : String} (hfresh : y ∉ Stmt.namesIn program) (fuel : Nat) (host : Host) :
    (d.renaming y).Suits (Session.Begins fuel host (resolve program)) := by
  refine ⟨fun p t h => ?_, fun p t h => ?_⟩
  · cases h
    exact ⟨⟨.top, rfl, trivial, trivial⟩, parsed_scoped hparse hcheck, fun _ => rfl⟩
  · cases h
    refine ⟨?_, fun f hf hfunction hscope => ?_⟩
    · change y ∉ Stmt.namesIn (resolve program)
      rwa [resolve, Stmt.namesIn_resolve]
    · change f ∈ Stmt.localsIn [] (resolve program) at hf
      rw [resolve, Stmt.localsIn_resolve] at hf
      exact Declaration.function_differs hparse hcheck hd hvariable hf hfunction hscope

/-- Both runs start with the natives. -/
theorem renamed_new :
    Session.new.machine.Renamed r starts [false] Session.new.machine := by
  refine ⟨⟨rfl, rfl, rfl, fun f here hf => ?_⟩, rfl, rfl, rfl⟩
  cases f with
  | succ f => cases hf
  | zero =>
    obtain rfl := Option.some.inj hf
    have hnative (f : Native) : (Value.native f).Renamed r starts [false]
        Session.new.machine.store (Value.native f) := .plain fun g => by simp
    exact .cons ⟨nofun, by simp, hnative .typeof⟩ (.cons ⟨nofun, by simp, hnative .clock⟩ .nil)

/-- What both runs show, if their steps agree. -/
theorem Outcome.Agree.report {o o' : Outcome Unit}
    (h : o.Agree r starts [false] (fun _ _ _ _ => True) o') :
    o.report.verdict.Renamed r starts o'.report.verdict ∧ o'.report.lines = o.report.lines := by
  have hlines {m m' : Machine} {v v' : Verdict}
      (h : m'.printed.map Value.print = m.printed.map Value.print) :
      RunReport.lines ⟨v', m'.printed⟩ = RunReport.lines ⟨v, m.printed⟩ := by
    unfold RunReport.lines
    rw [← Array.toList_map, ← Array.toList_map, h]
  cases o with
  | done _ m =>
    cases o' with
    | done _ m' =>
      obtain ⟨_, _, hm, _⟩ := h
      exact ⟨.same fun name => Verdict.noConfusion, hlines hm.printed⟩
    | stopped | outOfFuel => exact h.elim
  | outOfFuel m =>
    cases o' with
    | outOfFuel m' => exact ⟨.same fun name => Verdict.noConfusion, hlines h⟩
    | done | stopped => exact h.elim
  | stopped why m =>
    cases o' with
    | stopped why' m' =>
      obtain ⟨hwhy, hprinted⟩ := h
      refine ⟨?_, ?_⟩
      · cases hwhy with
        | undefined hloc huse => exact .undefined hloc huse
        | same hother =>
          cases why with
          | error e => exact .same fun name he => hother name (by rw [Verdict.failed.inj he])
          | fault f => exact .same fun name => Verdict.noConfusion
      · cases why <;> cases why' <;> exact hlines hprinted
    | done | outOfFuel => exact h.elim

/-- A variable of a block or a function, or a parameter, gets a name that the program does not have.
The resolver accepts the new program too and gives all uses the addresses they had. With any amount
of fuel, nothing that a run shows is different, except that an error may call the variable by its
new name. So both programs end in the same way or neither of them ends, and they print the same. -/
theorem rename_preserves_runs (hparse : parse room tokens = .ok ⟨program, []⟩)
    (hcheck : check program = []) {d : Declaration} (hd : d ∈ Stmt.localsIn [] program)
    (hvariable : d.isFunction = false) {y : String} (hfresh : y ∉ Stmt.namesIn program) :
    let renamed := (d.renaming y).program program
    (∀ d' ∈ Stmt.localsIn [] program, d'.scope = d.scope → d'.name.lexeme = d.name.lexeme →
      d' = d) ∧
    check renamed = [] ∧ resolve renamed = (d.renaming y).program (resolve program) ∧
    ∀ host,
      let Same (fuel : Nat) := Verdict.Renamed (d.renaming y)
        (Session.Begins fuel host (resolve program))
      (∀ fuel,
        let report := (Session.new.interpret fuel host (resolve program)).1
        let report' := (Session.new.interpret fuel host (resolve renamed)).1
        Same fuel report.verdict report'.verdict ∧ report'.output = report.output) ∧
      (∀ verdict output, Session.Ends host (resolve program) verdict output →
        ∃ fuel verdict', Session.Ends host (resolve renamed) verdict' output ∧
          Same fuel verdict verdict') ∧
      (∀ verdict' output, Session.Ends host (resolve renamed) verdict' output →
        ∃ fuel verdict, Session.Ends host (resolve program) verdict output ∧
          Same fuel verdict verdict') ∧
      (Session.Diverges host (resolve renamed) ↔ Session.Diverges host (resolve program)) ∧
      ∀ lines, Session.Prints host (resolve renamed) lines ↔
        Session.Prints host (resolve program) lines := by
  intro renamed
  refine ⟨fun d' hd' hscope hname => ?_, Renaming.check_program hfresh hcheck,
    Renaming.resolve_program hfresh, fun host => ?_⟩
  · by_contra hne
    exact (locals_differ hparse hcheck).forall hd' hd hne hscope hname
  · intro Same
    have hsame (fuel : Nat) :
        Same fuel (Session.new.interpret fuel host (resolve program)).1.verdict
            (Session.new.interpret fuel host (resolve renamed)).1.verdict ∧
          (Session.new.interpret fuel host (resolve renamed)).1.lines =
            (Session.new.interpret fuel host (resolve program)).1.lines := by
      rw [Renaming.resolve_program hfresh, Session.interpret_report, Session.interpret_report]
      have hr := suits_begins hparse hcheck hd hvariable hfresh fuel host
      exact (agree_execEach hr (.start .intro) renamed_new (.top rfl)).report
    refine ⟨fun fuel => ⟨(hsame fuel).1, RunReport.output_congr (hsame fuel).2⟩,
      fun verdict output hends => ?_, fun verdict' output hends => ?_, ?_, fun lines => ?_⟩
    · obtain ⟨fuel, rfl, rfl⟩ := hends.finished
      have hfinished := mt (hsame fuel).1.unfinished_iff.1 hends.1
      rw [← RunReport.output_congr (hsame fuel).2]
      exact ⟨fuel, _, Session.ends_of_finished hfinished, (hsame fuel).1⟩
    · obtain ⟨fuel, rfl, rfl⟩ := hends.finished
      have hfinished := mt (hsame fuel).1.unfinished_iff.2 hends.1
      rw [RunReport.output_congr (hsame fuel).2]
      exact ⟨fuel, _, Session.ends_of_finished hfinished, (hsame fuel).1⟩
    · exact forall_congr' fun fuel => (hsame fuel).1.unfinished_iff
    · exact exists_congr fun fuel => by rw [(hsame fuel).2]

/-- The new name shows in the error. -/
theorem rename_preserves_runs_initializer :
    let name (s : String) (column : Nat) : Token := ⟨.identifier, s, ⟨1, column⟩⟩
    let program (s : String) : List (Stmt Unit) :=
      [.print (.literal (.bool true)),
        .block [.var (name s 18) (some (.assign (name s 22) (.literal .nil) ()))]]
    let text := "print true; \x7bvar b = b = nil;\x7d"
    let host : Host := .still 99 0
    let d : Declaration := ⟨[.block, .child 0, .child 1], name "b" 18, false⟩
    parse host.frames (scan text) = .ok ⟨program "b", []⟩ ∧ check (program "b") = [] ∧
      d ∈ Stmt.localsIn [] (program "b") ∧ d.isFunction = false ∧
      "c" ∉ Stmt.namesIn (program "b") ∧ (d.renaming "c").program (program "b") = program "c" ∧
      (Session.new.interpret 9 host (resolve (program "b"))).1.verdict =
        .failed ⟨name "b" 22, .undefined⟩ ∧
      (Session.new.interpret 9 host (resolve (program "c"))).1.verdict =
        .failed ⟨name "c" 22, .undefined⟩ ∧
      check (program "c") = [] ∧
      (∃ fuel verdict', Session.Ends host (resolve (program "c")) verdict'
          (Session.new.interpret 9 host (resolve (program "b"))).1.output ∧
        Verdict.Renamed (d.renaming "c") (Session.Begins fuel host (resolve (program "b")))
          (.failed ⟨name "b" 22, .undefined⟩) verdict') ∧
      (Session.Prints host (resolve (program "c")) ["true"] ↔
        Session.Prints host (resolve (program "b")) ["true"]) := by
  intro name program text host d
  have hscan : scan text = [⟨.kwPrint, "print", ⟨1, 1⟩⟩, ⟨.kwTrue, "true", ⟨1, 7⟩⟩,
      ⟨.semicolon, ";", ⟨1, 11⟩⟩, ⟨.leftBrace, "\x7b", ⟨1, 13⟩⟩, ⟨.kwVar, "var", ⟨1, 14⟩⟩,
      name "b" 18, ⟨.equal, "=", ⟨1, 20⟩⟩, name "b" 22, ⟨.equal, "=", ⟨1, 24⟩⟩,
      ⟨.kwNil, "nil", ⟨1, 26⟩⟩, ⟨.semicolon, ";", ⟨1, 29⟩⟩, ⟨.rightBrace, "\x7d", ⟨1, 30⟩⟩,
      ⟨.eof, "", ⟨1, 31⟩⟩] := by
    decide +kernel
  have hparse : parse host.frames (scan text) = .ok ⟨program "b", []⟩ := by
    rw [hscan]
    cbv
  have hd : d ∈ Stmt.localsIn [] (program "b") := List.mem_singleton_self d
  have hfresh : "c" ∉ Stmt.namesIn (program "b") := by decide
  obtain ⟨-, hcheck, -, hruns⟩ := rename_preserves_runs hparse rfl hd rfl hfresh
  have hrenamed : (d.renaming "c").program (program "b") = program "c" := rfl
  rw [hrenamed] at hcheck hruns
  obtain ⟨-, hends, -, -, hprints⟩ := hruns host
  have hfailed : (Session.new.interpret 9 host (resolve (program "b"))).1.verdict =
      .failed ⟨name "b" 22, .undefined⟩ := rfl
  have hfinished : (Session.new.interpret 9 host (resolve (program "b"))).1.verdict ≠
      .unfinished := by
    rw [hfailed]
    simp
  have hfirst := Session.ends_of_finished hfinished
  rw [hfailed] at hfirst
  exact ⟨hparse, rfl, hd, rfl, hfresh, hrenamed, hfailed, rfl, hcheck, hends _ _ hfirst, hprints _⟩

end Scriptlet

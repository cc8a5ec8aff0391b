import Scriptlet.Scan
import Scriptlet.Proofs.Control.Jumps
import Scriptlet.Proofs.Counting.Faithful
import Scriptlet.Proofs.Parsing.Reading

/-! Parser and resolver agree on which jumps stand in a loop: the one counts the loops while it
makes the tree, the other one looks at the finished tree. -/
namespace Scriptlet.Parse

variable {α β : Type} {n room : Nat} {b : Bool} {before : List JumpNode}

/-- How the jump is seen in the tree. -/
def Site.node (site : Site) : JumpNode := ⟨site.jump, site.keyword, site.loops != 0⟩

theorem Site.stray_node (site : Site) : site.node.stray? = site.stray? := by
  unfold JumpNode.stray? stray? node
  by_cases h : site.loops = 0 <;> simp [h]

theorem filterMap_stray_node (sites : List Site) :
    (sites.map Site.node).filterMap JumpNode.stray? = sites.filterMap Site.stray? := by
  rw [List.filterMap_map]
  exact congrArg (fun f => sites.filterMap f) (funext Site.stray_node)

/-- In a loop or in none, the rule makes these jumps in addition to those made before, and no
others. -/
def Walk.Makes (t : Walk α) (b : Bool) (before : List JumpNode) (nodes : α → List JumpNode) :
    Prop :=
  ∀ w, (w.counters.loops != 0) = b → ∀ a sites w', t.run w = .ok a sites w' →
    before ++ sites.map Site.node = nodes a

namespace Walk.Makes

theorem pure {a : α} {nodes : α → List JumpNode} (h : before = nodes a) :
    (Pure.pure a : Walk α).Makes b before nodes := by
  rintro w _ a' sites w' hrun
  obtain ⟨rfl, rfl, -⟩ := Walked.ok.inj hrun
  simpa using h

theorem noFuel {nodes : α → List JumpNode} :
    (Walk.halt .outOfFuel : Walk α).Makes b before nodes := fun _ _ _ _ _ hrun => by cases hrun

theorem bind {t : Walk α} {f : α → Walk β} {nodes : α → List JumpNode}
    {nodes' : β → List JumpNode} (ht : t.Makes b before nodes)
    (hf : ∀ a, (f a).Makes b (nodes a) nodes') : (t >>= f).Makes b before nodes' := by
  intro w hw a' sites w'' hrun
  have hlater := t.later w
  rw [run_bind] at hrun
  cases hfirst : t.run w with
  | bad w' | halt cause w' =>
    rw [hfirst] at hrun
    cases hrun
  | ok a made w' =>
    rw [hfirst] at hrun hlater
    have hcounters : w'.counters = w.counters := hlater.counters
    have hmade := ht w hw a made w' hfirst
    cases hnext : (f a).run w' with
    | bad u | halt cause u =>
      simp only [hnext, Walked.also] at hrun
      cases hrun
    | ok a'' more u =>
      simp only [hnext, Walked.also, Walked.ok.injEq] at hrun
      obtain ⟨rfl, rfl, rfl⟩ := hrun
      have hmore := hf a w' (by rw [hcounters, hw]) _ _ _ hnext
      rw [List.map_append, ← List.append_assoc, hmade, hmore]

/-- What was made before is of no concern to the rule. -/
theorem frame {t : Walk α} {nodes : α → List JumpNode} (h : t.Makes b [] nodes)
    (before : List JumpNode) : t.Makes b before fun a => before ++ nodes a :=
  fun w hw a sites w' hrun => congrArg (before ++ ·) (h w hw a sites w' hrun)

/-- A rule without counters makes none. -/
theorem lift {p : Parser α} (hp : Elementary p) :
    (Walk.lift p hp).Makes b before fun _ => before := by
  intro w _ a sites w' hrun
  obtain ⟨-, rfl⟩ := lift_eq_ok hrun
  simp

theorem liftGives {p : Parser α} (hp : Elementary p) {nodes : α → List JumpNode}
    (h : Gives p fun a => before = nodes a) : (Walk.lift p hp).Makes b before nodes := by
  intro w _ a sites w' hrun
  obtain ⟨hresult, rfl⟩ := lift_eq_ok hrun
  simpa using h _ _ _ hresult

theorem liftBind {p : Parser α} (hp : Elementary p) {P : α → Prop} (h : Gives p P)
    {f : α → Walk β} {nodes : β → List JumpNode} (hf : ∀ a, P a → (f a).Makes b before nodes) :
    (Walk.lift p hp >>= f).Makes b before nodes := by
  intro w hw c sites w'' hrun
  rw [run_bind] at hrun
  cases hfirst : (Walk.lift p hp).run w with
  | bad w' | halt cause w' =>
    rw [hfirst] at hrun
    cases hrun
  | ok a made w' =>
    have hlater := (Walk.lift p hp).later w
    obtain ⟨hresult, rfl⟩ := lift_eq_ok hfirst
    rw [hfirst] at hrun hlater
    have hcounters : w'.counters = w.counters := hlater.counters
    have hsame : ((f a).run w').also [] = (f a).run w' := by cases (f a).run w' <;> rfl
    exact hf a (h _ _ _ hresult) w' (by rw [hcounters, hw]) c sites w'' (hsame.symm.trans hrun)

theorem advance : Walk.advance.Makes b before fun _ => before := lift _

theorem peek : Walk.peek.Makes b before fun _ => before := lift _

theorem accept (kinds : List Kind) : (Walk.accept kinds).Makes b before fun _ => before := lift _

theorem expect (slot : Slot) : (Walk.expect slot).Makes b before fun _ => before := lift _

theorem guardDepth : Walk.guardDepth.Makes b before fun _ => before := by
  intro w _ a sites w' hrun
  unfold Walk.guardDepth at hrun
  dsimp only at hrun
  split at hrun
  · cases hrun
  · obtain ⟨-, rfl, -⟩ := Walked.ok.inj hrun
    simp

theorem within {e : Enclosure} {b' : Bool}
    (he : ∀ k : Counters, (k.loops != 0) = b → ((e.enter k).loops != 0) = b') {t : Walk α}
    {nodes : α → List JumpNode} (h : t.Makes b' before nodes) :
    (Walk.within e t).Makes b before nodes := by
  intro w hw a sites w' hrun
  rw [run_within] at hrun
  cases hinner : t.run { w with counters := e.enter w.counters } with
  | bad u | halt cause u =>
    rw [hinner] at hrun
    cases hrun
  | ok a' made u =>
    rw [hinner] at hrun
    obtain ⟨rfl, rfl, -⟩ := Walked.ok.inj hrun
    exact h _ (he _ hw) _ _ _ hinner

theorem inStatement {t : Walk α} {nodes : α → List JumpNode} (h : t.Makes b before nodes) :
    (Walk.within .statement t).Makes b before nodes := within (fun _ hk => hk) h

theorem inBlock {t : Walk α} {nodes : α → List JumpNode} (h : t.Makes b before nodes) :
    (Walk.within .block t).Makes b before nodes := within (fun _ hk => hk) h

theorem inLoop {t : Walk α} {nodes : α → List JumpNode} (h : t.Makes true before nodes) :
    (Walk.within .loop t).Makes b before nodes :=
  within (fun k _ => by simp [Enclosure.loop]) h

theorem inFunction {t : Walk α} {nodes : α → List JumpNode} (h : t.Makes false before nodes) :
    (Walk.within .function t).Makes b before nodes := within (fun _ _ => rfl) h

theorem jumpStatement (j : Jump) (keyword : Token) :
    (Walk.jumpStatement j keyword).Makes b before fun st => before ++ st.jumps b := by
  intro w hw a sites w' hrun
  rw [run_jumpStatement] at hrun
  cases hresult : Parse.expect (.jumpEnd j) (reportStray j keyword w) with
  | bad s | halt cause s =>
    rw [hresult] at hrun
    cases hrun
  | ok t s =>
    rw [hresult] at hrun
    obtain ⟨rfl, rfl, -⟩ := Walked.ok.inj hrun
    simp [Site.node, Stmt.jumps, hw]

/-- The jumps in what is given up are gone with it. -/
theorem recovering {t : Walk (Stmt Unit)} (h : t.Makes b [] fun st => st.jumps b) :
    (Walk.recovering t).Makes b [] fun d => Stmt.jumpsAll b d.toList := by
  intro w hw d sites w' hrun
  rw [run_recovering] at hrun
  cases hinner : t.run { w with state := w.state.calm } with
  | halt cause u =>
    rw [hinner] at hrun
    cases hrun
  | ok st made u =>
    rw [hinner] at hrun
    obtain ⟨rfl, rfl, -⟩ := Walked.ok.inj hrun
    simpa [Stmt.jumpsAll] using h { w with state := w.state.calm } hw _ _ _ hinner
  | bad u =>
    rw [hinner] at hrun
    dsimp only at hrun
    split at hrun
    · obtain ⟨rfl, rfl, -⟩ := Walked.ok.inj hrun
      rfl
    · cases hrun

theorem recorded {t : Walk (Option (Stmt Unit))} {nodes : Option (Stmt Unit) → List JumpNode}
    (h : t.Makes b before nodes) : (Walk.recorded t).Makes b before nodes := by
  intro w hw d sites w' hrun
  rw [run_recorded] at hrun
  cases hinner : t.run w with
  | bad u | halt cause u =>
    rw [hinner] at hrun
    cases hrun
  | ok d' made u =>
    rw [hinner] at hrun
    obtain ⟨rfl, rfl, -⟩ := Walked.ok.inj hrun
    exact h w hw _ _ _ hinner

end Walk.Makes

/-- These statements have none in them. -/
def Jumpless (s : Stmt Unit) : Prop := ∀ b, s.jumps b = []

theorem jumpless_varDeclaration (n : Nat) : Gives (varDeclaration n room) Jumpless := by
  rw [varDeclaration_eq]
  exact .after fun _ => .after fun _ => .after fun _ => .pure fun _ => rfl

theorem jumpless_expressionStatement (n : Nat) :
    Gives (expressionStatement n room) Jumpless :=
  .after fun _ => .after fun _ => .pure fun _ => rfl

theorem jumpless_printStatement (n : Nat) : Gives (printStatement n room) Jumpless :=
  .after fun _ => .after fun _ => .pure fun _ => rfl

theorem jumpless_returnStatement (n : Nat) (keyword : Token) :
    Gives (returnStatement n room keyword) Jumpless := by
  rw [returnStatement_eq]
  exact .after fun _ => .after fun _ => .pure fun _ => rfl

theorem jumpless_forInit (n : Nat) :
    Gives (forInit n room) fun init => ∀ st ∈ init, Jumpless st := by
  refine .after fun k => ?_
  split
  · refine .after fun _ => .bind (jumpless_varDeclaration n) fun st hst => .pure fun st' hst' => ?_
    obtain rfl := Option.some.inj hst'
    exact hst
  · exact .after fun _ => .pure nofun
  · refine .bind (jumpless_expressionStatement n) fun st hst => .pure fun st' hst' => ?_
    obtain rfl := Option.some.inj hst'
    exact hst

/-- The jumps of a `for` loop are those of its body. -/
theorem jumps_forHead (n : Nat) :
    Gives (forHead n room) fun head => ∀ b body, (head.loop body).jumps b = body.jumps true := by
  rw [forHead_eq]
  refine .after fun _ => .bind (jumpless_forInit n) fun init hinit => .after fun condition =>
    .after fun _ => .after fun step => .after fun _ => .pure fun b body => ?_
  cases init with
  | none => cases step <;> simp [ForHead.loop, Stmt.jumps]
  | some st =>
    have hst := hinit st rfl
    cases step <;> simp [ForHead.loop, Stmt.jumps, Stmt.jumpsAll, hst b]

theorem Walk.Makes.jumpless {p : Parser (Stmt Unit)} (hp : Elementary p) (h : Gives p Jumpless) :
    (Walk.lift p hp).Makes b [] fun st => st.jumps b :=
  .liftGives hp fun s st r hresult => (h s st r hresult b).symm

/-- With this much fuel all rules make the jumps in their values. -/
structure MakingStmt (n room : Nat) : Prop where
  declaration (b : Bool) : (Walk.declaration n room).Makes b [] fun d => Stmt.jumpsAll b d.toList
  function (b : Bool) : (Walk.function n room).Makes b [] fun st => st.jumps b
  statement (b : Bool) : (Walk.statement n room).Makes b [] fun st => st.jumps b
  block (b : Bool) : (Walk.block n room).Makes b [] fun ss => Stmt.jumpsAll b ss
  items (b : Bool) : (Walk.items n room).Makes b [] fun ss => Stmt.jumpsAll b ss
  arms (b : Bool) : (Walk.arms n room).Makes b [] fun as => as.jumps b

theorem makes_declaration (ih : MakingStmt n room) (b : Bool) :
    (Walk.declaration (n + 1) room).Makes b [] fun d => Stmt.jumpsAll b d.toList := by
  unfold Walk.declaration
  refine .recovering (.bind .peek fun k => ?_)
  split
  · exact .bind .advance fun _ => ih.function b
  · exact .bind .advance fun _ => .jumpless _ (jumpless_varDeclaration n)
  · exact ih.statement b

theorem makes_function (ih : MakingStmt n room) (b : Bool) :
    (Walk.function (n + 1) room).Makes b [] fun st => st.jumps b := by
  unfold Walk.function
  exact .bind (.expect _) fun _ => .bind (.expect _) fun _ => .bind (.lift _) fun _ =>
    .bind (.expect _) fun _ => .bind (.expect _) fun _ =>
    .bind (.inFunction (.bind .guardDepth fun _ => ih.block false)) fun _ => .pure rfl

theorem makes_statement (ih : MakingStmt n room) (b : Bool) :
    (Walk.statement (n + 1) room).Makes b [] fun st => st.jumps b := by
  unfold Walk.statement
  refine .inStatement (.bind .guardDepth fun _ => .bind .peek fun k => ?_)
  split
  · exact .bind .advance fun _ => .jumpless _ (jumpless_printStatement n)
  · exact .bind .advance fun _ => .bind (ih.block b) fun _ => .pure rfl
  · refine .bind .advance fun _ => .bind (.lift _) fun _ => .bind (ih.statement b) fun first =>
      .bind (.accept _) fun o => ?_
    cases o with
    | none => exact .pure rfl
    | some _ => exact .bind ((ih.statement b).frame _) fun second => .pure rfl
  · exact .bind .advance fun _ => .bind (.lift _) fun _ => .bind (.expect _) fun _ =>
      .bind (ih.arms b) fun _ => .bind (.expect _) fun _ => .pure rfl
  · exact .bind .advance fun _ => .bind (.lift _) fun _ =>
      .bind (.inLoop (ih.statement true)) fun _ => .pure rfl
  · exact .bind .advance fun _ => .liftBind _ (jumps_forHead n) fun head hhead =>
      .bind (.inLoop (ih.statement true)) fun body => .pure (hhead b body).symm
  · exact .bind .advance fun _ => .bind (.inLoop (ih.statement true)) fun _ =>
      .bind (.expect _) fun _ => .bind (.lift _) fun _ => .bind (.expect _) fun _ => .pure rfl
  · exact .bind .advance fun _ => .jumpStatement _ _
  · exact .bind .advance fun _ => .jumpStatement _ _
  · exact .bind .advance fun _ => .jumpless _ (jumpless_returnStatement n _)
  · exact .jumpless _ (jumpless_expressionStatement n)

theorem makes_items (ih : MakingStmt n room) (b : Bool) :
    (Walk.items (n + 1) room).Makes b [] fun ss => Stmt.jumpsAll b ss := by
  unfold Walk.items
  refine .bind .peek fun k => ?_
  split
  · exact .pure rfl
  · exact .pure rfl
  · exact .bind (.recorded (ih.declaration b)) fun first => .bind ((ih.items b).frame _)
      fun rest => .pure (Stmt.jumpsAll_append b first.toList rest).symm

theorem makes_arms (ih : MakingStmt n room) (b : Bool) :
    (Walk.arms (n + 1) room).Makes b [] fun as => as.jumps b := by
  unfold Walk.arms
  refine .bind .peek fun k => ?_
  split
  · exact .bind .advance fun _ => .bind (.lift _) fun _ => .bind (.expect _) fun _ =>
      .bind (ih.statement b) fun body => .bind ((ih.arms b).frame _) fun rest => .pure rfl
  · exact .bind .advance fun _ => .bind (.expect _) fun _ => .bind (ih.statement b) fun _ =>
      .pure rfl
  · exact .pure rfl

theorem makingStmt (n room : Nat) : MakingStmt n room := by
  induction n with
  | zero =>
    exact ⟨fun _ => .noFuel, fun _ => .noFuel, fun _ => .noFuel, fun _ => .noFuel,
      fun _ => .noFuel, fun _ => .noFuel⟩
  | succ n ih =>
    refine ⟨makes_declaration ih, makes_function ih, makes_statement ih, fun b => ?_,
      makes_items ih, makes_arms ih⟩
    unfold Walk.block
    exact .inBlock (.bind (ih.items b) fun _ => .bind (.expect _) fun _ => .pure rfl)

theorem program_makes (n room : Nat) (w : Walker) (hw : w.counters = .zero) :
    (Walker.program n room w).jumps.map Site.node =
      Stmt.jumpsAll false (Walker.program n room w).statements := by
  induction n generalizing w with
  | zero => rfl
  | succ n ih =>
    unfold Walker.program
    split
    · rfl
    · have hlater := (Walk.recorded (Walk.declaration n room)).later w
      have hmakes := Walk.Makes.recorded ((makingStmt n room).declaration false) w (by rw [hw]; rfl)
      cases hrun : (Walk.recorded (Walk.declaration n room)).run w with
      | bad w' | halt cause w' => rfl
      | ok d sites w' =>
        rw [hrun] at hlater
        have hfirst := hmakes d sites w' hrun
        have hrest := ih w' (hlater.counters.trans hw)
        simp only [List.map_append, Stmt.jumpsAll_append, hrest, ← hfirst, List.nil_append]

variable {tokens : List Token} {record : Record} {parsed : Parsed}

/-- All that was reported on the way is in the reports of the program. -/
theorem reports_of_record (h : record? room tokens = some record)
    (hparse : parse room tokens = .ok parsed) : record.statements = parsed.statements ∧
      record.last.state.reports <+: parsed.reports := by
  obtain ⟨_, -, hlater⟩ := record_later h
  rw [parse_of_record h] at hparse
  rw [← hlater.state]
  cases hending : record.ending with
  | done s =>
    rw [hending] at hparse
    obtain rfl := Except.ok.inj hparse
    exact ⟨rfl, List.prefix_refl _⟩
  | halted cause s =>
    rw [hending] at hparse
    cases cause with
    | nesting =>
      obtain rfl := Except.ok.inj hparse
      exact ⟨rfl, List.prefix_append _ _⟩
    | outOfTokens | badNumber | outOfFuel => cases hparse

theorem record_of_parse (h : parse room tokens = .ok parsed) :
    ∃ record, record? room tokens = some record := by
  unfold parse at h
  cases hstart : State.start? tokens with
  | none =>
    rw [hstart] at h
    cases h
  | some s => exact ⟨_, congrArg (Option.map _) hstart⟩

/-- The jumps of the trees that a program is parsed to are those that a parser that counts made, one
by one and in the same order. The resolver reports those of them for standing in no loop that were
made when the parser was in none, and those the parser has reported too. If it has reported nothing,
the resolver has nothing to say about jumps. -/
theorem jump_checks_agree (h : parse room tokens = .ok parsed) :
    ∃ record, record? room tokens = some record ∧ record.statements = parsed.statements ∧
      Stmt.jumpsAll false parsed.statements = record.jumps.map Site.node ∧
      (Scriptlet.check parsed.statements).filterMap ScopeReport.stray? =
        record.jumps.filterMap Site.stray? ∧
      (record.jumps.filterMap Site.stray?).Sublist
        (parsed.reports.filterMap Diagnostic.stray?) ∧
      (parsed.reports = [] →
        (Scriptlet.check parsed.statements).filterMap ScopeReport.stray? = []) := by
  obtain ⟨record, hrecord⟩ := record_of_parse h
  obtain ⟨hstatements, hprefix⟩ := reports_of_record hrecord h
  have hjumps : Stmt.jumpsAll false parsed.statements = record.jumps.map Site.node := by
    rw [← hstatements]
    obtain ⟨s, -, rfl⟩ := Option.map_eq_some_iff.1 hrecord
    exact (program_makes _ _ (.start s) rfl).symm
  have hcheck : (Scriptlet.check parsed.statements).filterMap ScopeReport.stray? =
      record.jumps.filterMap Site.stray? := by
    rw [← filterMap_stray_node, ← hjumps]
    exact Stmt.stray_checkAll .top [] parsed.statements
  have hreported : (record.jumps.filterMap Site.stray?).Sublist
      (parsed.reports.filterMap Diagnostic.stray?) := by
    obtain ⟨s, -, hlater⟩ := record_later hrecord
    obtain ⟨added, hadded, hsublist⟩ := hlater.reports
    have hinside : added.Sublist parsed.reports :=
      (hadded ▸ List.sublist_append_right s.reports added).trans hprefix.sublist
    exact hsublist.trans (hinside.filterMap _)
  refine ⟨record, hrecord, hstatements, hjumps, hcheck, hreported, fun hnone => ?_⟩
  rw [hnone] at hreported
  rw [hcheck]
  exact List.sublist_nil.1 hreported

/-- Of the four jumps that are kept the second one is in a function in a loop, and the last one
after a loop that was given up. A jump of what was given up is reported and is in no tree. -/
theorem jump_checks_agree_kept :
    let tokens := scan ("while (x) { break; function f() { continue; } }" ++
      "{ for (;;) { break; } ; break } while (x ; continue;")
    ∃ parsed record, parse 0 tokens = .ok parsed ∧ record? 0 tokens = some record ∧
      record.jumps.map Site.loops = [1, 0, 1, 0] ∧
      Stmt.jumpsAll false parsed.statements = record.jumps.map Site.node ∧
      (Scriptlet.check parsed.statements).filterMap ScopeReport.stray? =
        [(.again, ⟨.kwContinue, "continue", ⟨1, 35⟩⟩),
          (.again, ⟨.kwContinue, "continue", ⟨1, 91⟩⟩)] ∧
      (parsed.reports.filterMap Diagnostic.stray?).map Prod.fst = [.again, .exit, .again] := by
  intro tokens
  have hseen : (record? 0 tokens).all fun record =>
      record.jumps.map Site.loops = [1, 0, 1, 0] ∧ record.jumps.filterMap Site.stray? =
        [(.again, ⟨.kwContinue, "continue", ⟨1, 35⟩⟩),
          (.again, ⟨.kwContinue, "continue", ⟨1, 91⟩⟩)] := by decide +kernel
  have hreports : (parse 0 tokens).toOption.map (fun parsed =>
      (parsed.reports.filterMap Diagnostic.stray?).map Prod.fst) =
        some [.again, .exit, .again] := by
    decide +kernel
  cases hparse : parse 0 tokens with
  | error fault =>
    rw [hparse] at hreports
    cases hreports
  | ok parsed =>
    obtain ⟨record, hrecord, -, hjumps, hcheck, -⟩ := jump_checks_agree hparse
    rw [hrecord, Option.all_some, decide_eq_true_eq] at hseen
    rw [hparse] at hreports
    refine ⟨parsed, record, rfl, hrecord, hseen.1, hjumps, hcheck.trans hseen.2, ?_⟩
    exact Option.some.inj hreports

end Scriptlet.Parse

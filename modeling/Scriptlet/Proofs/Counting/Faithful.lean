import Scriptlet.Proofs.Counting.Rules
import Scriptlet.Proofs.Parsing.Transport

/-! A parser that counts does what the rules do that are told where they stand. Each call that it
has recorded was made where a declaration may start. -/
namespace Scriptlet.Parse

variable {α β : Type} {n room : Nat} {w : Walker} {c : Context}

/-- A call of the rule for declarations, made where one may start. -/
structure Call.Made (room : Nat) (call : Call) : Prop where
  unended : call.before.current.kind ≠ .eof
  unclosed (h : call.entered.blocks ≠ 0) : call.before.current.kind ≠ .rightBrace
  faithful : ∃ n, call.after = declaration n (call.entered.context room) call.before

/-- Seen without the counters this is the result, and the new calls are real ones. -/
structure Walked.Follows (room : Nat) (w : Walker) (x : Walked α) (r : Result α) : Prop where
  result : x.result = r
  calls (call : Call) (h : call ∈ x.walker.calls) : call ∈ w.calls ∨ call.Made room

/-- Where the counters say that it stands there, the rule does what the parser does. -/
def Walk.Follows (t : Walk α) (c : Context) (p : Parser α) : Prop :=
  ∀ w, w.counters.context c.room = c → (t.run w).Follows c.room w (p w.state)

theorem Walked.Follows.also {x : Walked α} {r : Result α} (h : x.Follows room w r)
    (jumps : List Site) : (x.also jumps).Follows room w r := by
  have hresult : (x.also jumps).result = x.result := by cases x <;> rfl
  have hwalker : (x.also jumps).walker = x.walker := by cases x <;> rfl
  refine ⟨hresult.trans h.result, fun call hcall => h.calls call ?_⟩
  rwa [hwalker] at hcall

namespace Walk.Follows

theorem pure (a : α) : (Pure.pure a : Walk α).Follows c (Pure.pure a) :=
  fun _ _ => ⟨rfl, fun _ h => .inl h⟩

theorem noFuel : (Walk.halt .outOfFuel : Walk α).Follows c (Parse.halt .outOfFuel) :=
  fun _ _ => ⟨rfl, fun _ h => .inl h⟩

/-- In the counters nothing has changed when the second rule begins. -/
theorem bind_run {t : Walk α} {f : α → Walk β} {p : Parser α} {g : α → Parser β}
    (hw : w.counters.context c.room = c) (ht : (t.run w).Follows c.room w (p w.state))
    (hf : ∀ a, (f a).Follows c (g a)) :
    ((t >>= f).run w).Follows c.room w ((p >>= g) w.state) := by
  have hlater := t.later w
  change Walked.Follows c.room w _ (Parser.bind p g w.state)
  rw [run_bind, Parser.bind, ← ht.result]
  cases hrun : t.run w with
  | ok a jumps w' =>
    rw [hrun] at hlater ht
    have hcounters : w'.counters = w.counters := hlater.counters
    have hnext := hf a w' (by rw [hcounters, hw])
    refine Walked.Follows.also ⟨hnext.result, fun call h => ?_⟩ jumps
    rcases hnext.calls call h with h | hmade
    · exact ht.calls call h
    · exact .inr hmade
  | bad w' | halt cause w' =>
    rw [hrun] at ht
    exact ⟨rfl, ht.calls⟩

theorem bind {t : Walk α} {f : α → Walk β} {p : Parser α} {g : α → Parser β}
    (ht : t.Follows c p) (hf : ∀ a, (f a).Follows c (g a)) : (t >>= f).Follows c (p >>= g) :=
  fun w hw => bind_run hw (ht w hw) hf

theorem lift {p : Parser α} (hp : Elementary p) : (Walk.lift p hp).Follows c p := by
  intro w _
  rw [run_lift]
  cases p w.state <;> exact ⟨rfl, fun _ h => .inl h⟩

theorem advance : Walk.advance.Follows c Parse.advance := lift _

theorem peek : Walk.peek.Follows c Parse.peek := lift _

theorem accept (kinds : List Kind) : (Walk.accept kinds).Follows c (Parse.accept kinds) := lift _

theorem expect (slot : Slot) : (Walk.expect slot).Follows c (Parse.expect slot) := lift _

/-- To go into something is to be told that one is in it. -/
theorem within {e : Enclosure} {into : Context → Context}
    (he : ∀ k room, (e.enter k).context room = into (k.context room)) {t : Walk α} {p : Parser α}
    (ht : t.Follows (into c) p) : (Walk.within e t).Follows c p := by
  intro w hw
  have hinto : (e.enter w.counters).context c.room = into c :=
    (he w.counters c.room).trans (congrArg into hw)
  have hroom : (into c).room = c.room := (congrArg Context.room hinto).symm
  have ht := ht { w with counters := e.enter w.counters } (by rw [hroom]; exact hinto)
  rw [hroom] at ht
  have hresult (x : Walked α) : (x.leaving e w.counters).result = x.result := by cases x <;> rfl
  have hcalls (x : Walked α) : (x.leaving e w.counters).walker.calls = x.walker.calls := by
    cases x <;> rfl
  refine ⟨(hresult _).trans ht.result, fun call h => ht.calls call ?_⟩
  rwa [← hcalls _]

theorem inStatement {t : Walk α} {p : Parser α} (ht : t.Follows c.deeper p) :
    (Walk.within .statement t).Follows c p := within (fun _ _ => rfl) ht

theorem inLoop {t : Walk α} {p : Parser α} (ht : t.Follows c.loop p) :
    (Walk.within .loop t).Follows c p :=
  within (fun _ _ => by simp [Counters.context, Enclosure.loop, Context.loop]) ht

theorem inBlock {t : Walk α} {p : Parser α} (ht : t.Follows c.block p) :
    (Walk.within .block t).Follows c p :=
  within (fun _ _ => by simp [Counters.context, Enclosure.block, Context.block]) ht

theorem inFunction {t : Walk α} {p : Parser α} (ht : t.Follows c.function p) :
    (Walk.within .function t).Follows c p := within (fun _ _ => rfl) ht

theorem guardDepth : Walk.guardDepth.Follows c (Parse.guardDepth c) := by
  intro w hw
  unfold Walk.guardDepth Parse.guardDepth
  have hdepth : c.depth = w.counters.depth := congrArg Context.depth hw.symm
  rw [hdepth]
  dsimp only
  split <;> exact ⟨rfl, fun _ h => .inl h⟩

theorem jumpStatement (j : Jump) (keyword : Token) :
    (Walk.jumpStatement j keyword).Follows c (Parse.jumpStatement c j keyword) := by
  intro w hw
  have hloop : c.inLoop = (w.counters.loops != 0) := congrArg Context.inLoop hw.symm
  have hreport : Parse.jumpStatement c j keyword w.state =
      Parser.bind (Parse.expect (.jumpEnd j)) (fun _ => Pure.pure (Stmt.jump j keyword))
        (reportStray j keyword w) := by
    rw [jumpStatement_eq, hloop]
    unfold reportStray complainIf
    by_cases h : w.counters.loops = 0
    · simp only [h, if_true]
      rfl
    · simp only [h, if_false, Bool.not_eq_true', bne_eq_false_iff_eq]
      rfl
  rw [hreport, run_jumpStatement, Parser.bind]
  cases Parse.expect (.jumpEnd j) (reportStray j keyword w) <;> exact ⟨rfl, fun _ h => .inl h⟩

theorem recovering {t : Walk α} {p : Parser α} (ht : t.Follows c p) :
    (Walk.recovering t).Follows c (Parse.recovering c.inBlock p) := by
  intro w hw
  have hlater := t.later { w with state := w.state.calm }
  have ht := ht { w with state := w.state.calm } hw
  unfold Parse.recovering
  rw [run_recovering, ← ht.result]
  cases hrun : t.run { w with state := w.state.calm } with
  | ok a jumps w' | halt cause w' =>
    rw [hrun] at ht
    exact ⟨rfl, ht.calls⟩
  | bad w' =>
    rw [hrun] at ht hlater
    have hkept : (w'.counters.blocks != 0) = (w.counters.blocks != 0) :=
      congrArg (fun k : Counters => k.blocks != 0) hlater.counters
    have hblocks : (w'.counters.blocks != 0) = c.inBlock :=
      hkept.trans (congrArg Context.inBlock hw)
    simp only [Walked.result, hblocks]
    cases w'.state.recover c.inBlock 0 <;> exact ⟨rfl, ht.calls⟩

/-- A call at such a token is one that may be made. -/
theorem recorded {t : Walk (Option (Stmt Unit))}
    (hw : w.counters.context c.room = c) (ht : t.Follows c (Parse.declaration n c))
    (heof : w.state.current.kind ≠ .eof)
    (hbrace : w.counters.blocks ≠ 0 → w.state.current.kind ≠ .rightBrace) :
    ((Walk.recorded t).run w).Follows c.room w (Parse.declaration n c w.state) := by
  have ht := ht w hw
  have hmade : Call.Made c.room
      ⟨w.state, w.counters, (t.run w).result, (t.run w).walker.counters⟩ :=
    ⟨heof, hbrace, n, by rw [hw]; exact ht.result⟩
  rw [run_recorded]
  cases hrun : t.run w with
  | ok d jumps w' | bad w' | halt cause w' =>
    rw [hrun] at ht hmade
    refine ⟨ht.result, fun call h => ?_⟩
    rcases List.mem_append.1 h with h | h
    · exact ht.calls call h
    · obtain rfl := List.mem_singleton.1 h
      exact .inr hmade

end Walk.Follows

/-- With this much fuel all rules are the same. -/
structure FollowingStmt (n : Nat) : Prop where
  declaration (c : Context) : (Walk.declaration n c.room).Follows c (declaration n c)
  function (c : Context) : (Walk.function n c.room).Follows c (function n c)
  statement (c : Context) : (Walk.statement n c.room).Follows c (statement n c)
  block (c : Context) : (Walk.block n c.room).Follows c (block n c)
  items (c : Context) (hc : c.inBlock = true) : (Walk.items n c.room).Follows c (items n c)
  arms (c : Context) : (Walk.arms n c.room).Follows c (arms n c)

theorem follows_declaration (ih : FollowingStmt n) (c : Context) :
    (Walk.declaration (n + 1) c.room).Follows c (declaration (n + 1) c) := by
  unfold Walk.declaration declaration
  refine .recovering (.bind .peek fun k => ?_)
  cases k with
  | kwFunction => exact .bind .advance fun _ => ih.function c
  | kwVar => exact .bind .advance fun _ => .lift _
  | _ => exact ih.statement c

theorem follows_function (ih : FollowingStmt n) (c : Context) :
    (Walk.function (n + 1) c.room).Follows c (function (n + 1) c) := by
  have hbody : (Walk.within .function (do Walk.guardDepth; Walk.block n c.room)).Follows c
      (do guardDepth c.function; block n c.function) :=
    .inFunction (.bind .guardDepth fun _ => ih.block _)
  have hsteps : function (n + 1) c = (do
      let name ← expect .functionName
      let _ ← expect .functionOpen
      let params ← parameterList n
      let _ ← expect .parametersClose
      let _ ← expect .functionBody
      let body ← (do guardDepth c.function; block n c.function)
      return .function name params body) := by
    rw [function_succ]
    simp only [bind_assoc]
  rw [hsteps]
  exact .bind (.expect _) fun _ => .bind (.expect _) fun _ => .bind (.lift _) fun _ =>
    .bind (.expect _) fun _ => .bind (.expect _) fun _ => .bind hbody fun _ => .pure _

theorem follows_statement (ih : FollowingStmt n) (c : Context) :
    (Walk.statement (n + 1) c.room).Follows c (statement (n + 1) c) := by
  unfold Walk.statement statement
  refine .inStatement (.bind .guardDepth fun _ => .bind .peek fun k => ?_)
  cases k with
  | kwPrint => exact .bind .advance fun _ => .lift _
  | leftBrace => exact .bind .advance fun _ => .bind (ih.block _) fun _ => .pure _
  | kwIf =>
    refine .bind .advance fun _ => .bind (.lift _) fun _ => .bind (ih.statement _) fun _ =>
      .bind (.accept _) fun o => ?_
    cases o with
    | none => exact .pure _
    | some _ => exact .bind (ih.statement _) fun _ => .pure _
  | kwSwitch =>
    exact .bind .advance fun _ => .bind (.lift _) fun _ => .bind (.expect _) fun _ =>
      .bind (ih.arms _) fun _ => .bind (.expect _) fun _ => .pure _
  | kwWhile | kwFor =>
    exact .bind .advance fun _ => .bind (.lift _) fun _ =>
      .bind (.inLoop (ih.statement _)) fun _ => .pure _
  | kwDo =>
    exact .bind .advance fun _ => .bind (.inLoop (ih.statement _)) fun _ =>
      .bind (.expect _) fun _ => .bind (.lift _) fun _ => .bind (.expect _) fun _ => .pure _
  | kwBreak | kwContinue => exact .bind .advance fun _ => .jumpStatement _ _
  | kwReturn => exact .bind .advance fun _ => .lift _
  | _ => exact .lift _

/-- Before each declaration of a block the rule looks whether the block ends. -/
theorem follows_items (ih : FollowingStmt n) (c : Context) (hc : c.inBlock = true) :
    (Walk.items (n + 1) c.room).Follows c (items (n + 1) c) := by
  intro w hw
  unfold Walk.items items
  refine Walked.Follows.also ?_ []
  have hmore (heof : w.state.current.kind ≠ .eof) (hbrace : w.state.current.kind ≠ .rightBrace) :
      ((Walk.recorded (Walk.declaration n c.room) >>= fun first =>
        Walk.items n c.room >>= fun rest => pure (first.toList ++ rest)).run w).Follows c.room w
      ((declaration n c >>= fun first => items n c >>= fun rest =>
        pure (first.toList ++ rest)) w.state) := by
    have hfirst := Walk.Follows.recorded hw (ih.declaration c) heof fun _ => hbrace
    exact Walk.Follows.bind_run hw hfirst fun _ => .bind (ih.items c hc) fun _ => .pure _
  rw [peek_bind]
  cases hk : w.state.current.kind with
  | rightBrace | eof => exact Walk.Follows.pure _ w hw
  | _ => exact hmore (by simp [hk]) (by simp [hk])

theorem follows_arms (ih : FollowingStmt n) (c : Context) :
    (Walk.arms (n + 1) c.room).Follows c (arms (n + 1) c) := by
  unfold Walk.arms arms
  refine .bind .peek fun k => ?_
  cases k with
  | kwCase =>
    exact .bind .advance fun _ => .bind (.lift _) fun _ => .bind (.expect _) fun _ =>
      .bind (ih.statement _) fun _ => .bind (ih.arms _) fun _ => .pure _
  | kwDefault =>
    exact .bind .advance fun _ => .bind (.expect _) fun _ => .bind (ih.statement _) fun _ =>
      .pure _
  | _ => exact .pure _

theorem followingStmt (n : Nat) : FollowingStmt n := by
  induction n with
  | zero =>
    exact ⟨fun _ => .noFuel, fun _ => .noFuel, fun _ => .noFuel, fun _ => .noFuel,
      fun _ _ => .noFuel, fun _ => .noFuel⟩
  | succ n ih =>
    refine ⟨follows_declaration ih, follows_function ih, follows_statement ih, fun c => ?_,
      follows_items ih, follows_arms ih⟩
    unfold Walk.block block
    exact .inBlock (.bind (ih.items _ rfl) fun _ => .bind (.expect _) fun _ => .pure _)

/-- What the record of a program leaves of the walker it began with, as for a single rule. -/
structure Record.Later (w : Walker) (record : Record) : Prop where
  state : record.ending.state = record.last.state
  counters : record.last.counters = w.counters
  calls : ∃ made, record.last.calls = w.calls ++ made ∧ ∀ c ∈ made, c.left = c.entered ∧
    ∀ cause r, c.after = .halt cause r → record.ending = .halted cause r
  reports : ∃ added, record.last.state.reports = w.state.reports ++ added ∧
    (record.jumps.filterMap Site.stray?).Sublist (added.filterMap Diagnostic.stray?)

namespace Record.Later

variable {e : Ending}

/-- There was nothing to be done. -/
theorem refl (he : e.state = w.state) : Record.Later w ⟨[], [], e, w⟩ :=
  ⟨he, rfl, ⟨[], by simp, by simp⟩, [], by simp, by simp⟩

/-- The first declaration is the last one. -/
theorem of_first {x : Walked α} (h : x.Later w) (he : e.state = x.walker.state)
    (hhalt : ∀ cause r, x.result = .halt cause r → e = .halted cause r) :
    Record.Later w ⟨[], [], e, x.walker⟩ := by
  obtain ⟨made, hcalls, hmade⟩ := h.calls
  obtain ⟨added, hreports, -⟩ := h.reports
  exact ⟨he, h.counters, ⟨made, hcalls, fun c hc => ⟨(hmade c hc).1, fun cause r hc' =>
    hhalt cause r ((hmade c hc).2 cause r hc')⟩⟩, added, hreports, List.nil_sublist _⟩

theorem after {d : Option (Stmt Unit)} {jumps : List Site} {w' : Walker} {rest : Record}
    (h : (Walked.ok d jumps w').Later w) (hrest : rest.Later w') :
    Record.Later w
      ⟨d.toList ++ rest.statements, jumps ++ rest.jumps, rest.ending, rest.last⟩ := by
  obtain ⟨made, hcalls, hmade⟩ := h.calls
  obtain ⟨added, hreports, hadded⟩ := h.reports
  obtain ⟨made', hcalls', hmade'⟩ := hrest.calls
  obtain ⟨added', hreports', hadded'⟩ := hrest.reports
  simp only [Walked.walker, Walked.jumps] at hcalls hreports hadded
  refine ⟨hrest.state, hrest.counters.trans h.counters,
    ⟨made ++ made', ?_, fun c hc => ?_⟩, added ++ added', ?_, ?_⟩
  · rw [hcalls', hcalls, List.append_assoc]
  · rcases List.mem_append.1 hc with hc | hc
    · refine ⟨(hmade c hc).1, fun cause r hhalt => ?_⟩
      cases (hmade c hc).2 cause r hhalt
    · exact hmade' c hc
  · rw [hreports', hreports, List.append_assoc]
  · rw [List.filterMap_append, List.filterMap_append]
    exact hadded.append hadded'

end Record.Later

namespace Walker

theorem program_later (n room : Nat) (w : Walker) : (program n room w).Later w := by
  induction n generalizing w with
  | zero => exact .refl rfl
  | succ n ih =>
    unfold program
    split
    · exact .refl rfl
    · have hfirst := (Walk.recorded (Walk.declaration n room)).later w
      cases hrun : (Walk.recorded (Walk.declaration n room)).run w with
      | ok d jumps w' =>
        rw [hrun] at hfirst
        exact .after hfirst (ih w')
      | bad w' =>
        rw [hrun] at hfirst
        refine .of_first hfirst rfl fun cause r hhalt => ?_
        cases hhalt
      | halt why w' =>
        rw [hrun] at hfirst
        refine .of_first hfirst rfl fun cause r hhalt => ?_
        obtain ⟨rfl, rfl⟩ := Result.halt.inj hhalt
        rfl

theorem program_follows (n room : Nat) (w : Walker) (hw : w.counters = .zero) :
    ((program n room w).statements, (program n room w).ending) = Parse.program n room w.state ∧
      ∀ c ∈ (program n room w).last.calls, c ∈ w.calls ∨ c.Made room := by
  induction n generalizing w with
  | zero => exact ⟨rfl, fun c hc => .inl hc⟩
  | succ n ih =>
    unfold program Parse.program
    by_cases hend : w.state.atEnd = true
    · rw [if_pos hend, if_pos hend]
      exact ⟨rfl, fun c hc => .inl hc⟩
    · rw [if_neg hend, if_neg hend]
      have hlater := (Walk.recorded (Walk.declaration n room)).later w
      have htop : w.counters.context room = .top room := by rw [hw]; rfl
      have hfirst : Walked.Follows room w ((Walk.recorded (Walk.declaration n room)).run w)
          (declaration n (.top room) w.state) :=
        Walk.Follows.recorded htop ((followingStmt n).declaration (.top room))
          (by simpa [State.atEnd] using hend) (by simp [hw, Counters.zero])
      rw [← hfirst.result]
      cases hrun : (Walk.recorded (Walk.declaration n room)).run w with
      | ok d jumps w' =>
        rw [hrun] at hlater hfirst
        obtain ⟨hrest, hcalls⟩ := ih w' (hlater.counters.trans hw)
        refine ⟨?_, fun c hc => ?_⟩
        · simp only [Walked.result, ← hrest]
        · rcases hcalls c hc with hc | hmade
          · exact hfirst.calls c hc
          · exact .inr hmade
      | bad w' | halt cause w' =>
        rw [hrun] at hfirst
        exact ⟨rfl, hfirst.calls⟩

end Walker

variable {tokens : List Token} {record : Record}

theorem record_later (h : record? room tokens = some record) :
    ∃ s, State.start? tokens = some s ∧ record.Later (.start s) := by
  obtain ⟨s, hstart, rfl⟩ := Option.map_eq_some_iff.1 h
  exact ⟨s, hstart, Walker.program_later ..⟩

/-- Counting makes no difference to what the rules give. -/
theorem program_of_record (h : record? room tokens = some record) :
    ∃ s, State.start? tokens = some s ∧
      program (rulesPerToken * (tokens.length + 2)) (operandRules + room) s =
        (record.statements, record.ending) := by
  obtain ⟨s, hstart, rfl⟩ := Option.map_eq_some_iff.1 h
  exact ⟨s, hstart, (Walker.program_follows _ _ (.start s) rfl).1.symm⟩

theorem parse_of_record (h : record? room tokens = some record) :
    parse room tokens = record.ending.close record.statements := by
  obtain ⟨s, hstart, hprogram⟩ := program_of_record h
  unfold parse
  rw [hstart]
  dsimp only
  rw [hprogram]

theorem made_of_record (h : record? room tokens = some record) {c : Call}
    (hc : c ∈ record.last.calls) : c.Made (operandRules + room) := by
  obtain ⟨s, -, rfl⟩ := Option.map_eq_some_iff.1 h
  obtain ⟨-, hcalls⟩ :=
    Walker.program_follows (rulesPerToken * (tokens.length + 2)) (operandRules + room) (.start s)
      rfl
  exact (hcalls c hc).resolve_left (by simp [Walker.start])

/-- Every call leaves the counters as it found them, and when one halts, everything does. -/
theorem ends_of_record (h : record? room tokens = some record) {c : Call}
    (hc : c ∈ record.last.calls) : c.left = c.entered ∧
      ∀ cause r, c.after = .halt cause r → record.ending = .halted cause r := by
  obtain ⟨s, -, hlater⟩ := record_later h
  obtain ⟨made, hcalls, hmade⟩ := hlater.calls
  have hmem : c ∈ made := by
    rw [hcalls] at hc
    simpa [Walker.start] using hc
  exact hmade c hmem

end Scriptlet.Parse

import Scriptlet.Proofs.Counting.Faithful
import Scriptlet.Proofs.Parsing.Resume

/-! Parsing comes to an end. Each declaration takes a token at least, or there are too many inside
each other. -/
namespace Scriptlet.Parse

variable {n room : Nat} {c : Context} {s r : State} {tokens : List Token} {record : Record}

/-- A declaration that is parsed or given up has passed a token. -/
theorem declaration_passes {d : Option (Stmt Unit)} (hd : declaration n c s = .ok d r)
    (heof : s.current.kind ≠ .eof) (hbrace : c.inBlock = true → s.current.kind ≠ .rightBrace) :
    r.stream <:+ s.rest := by
  let enough := max n (rulesPerToken * s.rest.length + 14)
  have hsame : declaration enough c s = .ok d r := by
    rcases (outlastedStmt (by omega : n ≤ enough)).declaration c s with ⟨u, hu⟩ | hsame
    · cases hd.symm.trans hu
    · exact hsame.trans hd
  have hwithin :=
    (totalStmt enough).declaration c (by omega) (Nat.le_refl s.rest.length) heof hbrace
  rwa [hsame] at hwithin

theorem Call.Made.passes {call : Call} (h : call.Made room) {d : Option (Stmt Unit)}
    (hafter : call.after = .ok d r) : r.stream <:+ call.before.rest := by
  obtain ⟨n, hn⟩ := h.faithful
  refine declaration_passes (hn.symm.trans hafter) h.unended fun hblock => h.unclosed ?_
  simpa [Counters.context] using hblock

/-- Where there is a parse, nothing but too much nesting has stopped it. -/
theorem nesting_of_halted {parsed : Parsed} {cause : Halt} (h : record? room tokens = some record)
    (hparse : parse room tokens = .ok parsed) (hending : record.ending = .halted cause r) :
    cause = .nesting ∧ parsed.reports = r.reports ++ [⟨r.current, .tooDeep, false⟩] := by
  rw [parse_of_record h, hending] at hparse
  cases cause with
  | nesting =>
    obtain rfl := Except.ok.inj hparse
    exact ⟨rfl, rfl⟩
  | outOfTokens | badNumber | outOfFuel => cases hparse

theorem ahead_of_record {eof : Token} {us : List Token} (heof : eof.kind = .eof)
    (htokens : eof :: us <:+ tokens) (h : record? room tokens = some record) :
    record.last.state.Ahead eof us := by
  obtain ⟨s, hstart, hprogram⟩ := program_of_record h
  obtain ⟨s', hstart', hahead⟩ :=
    State.pullFrom_ahead (by simp [heof]) htokens ⟨default, tokens, false, []⟩
  obtain rfl := Option.some.inj (hstart.symm.trans hstart')
  obtain ⟨_, -, hlater⟩ := record_later h
  have hkeeps := program_keeps (State.ahead_invariant heof us)
    (rulesPerToken * (tokens.length + 2)) (operandRules + room) hahead
  rw [hprogram] at hkeeps
  rwa [← hlater.state]

/-- Tokens through an end, with numbers that can be read, have a parse, whatever else they are and
whatever comes after the end; of that nothing is ever taken. A parser that counts gets there, and
each of its calls of the rule for declarations passes a token or ends the parse because of too much
nesting. -/
theorem parse_comes_to_an_end {ts us : List Token} {eof : Token} (heof : eof.kind = .eof)
    (hnumbers : ∀ t ∈ ts, t.kind = .number → (readNumber? t.lexeme).isSome = true) :
    ∃ parsed, (∀ vs, parse room (ts ++ eof :: vs) = .ok parsed) ∧
      ∃ record, record? room (ts ++ eof :: us) = some record ∧
        record.ending.close record.statements = .ok parsed ∧
        eof :: us <:+ record.last.state.stream ∧
        ∀ call ∈ record.last.calls,
          (∃ d r, call.after = .ok d r ∧ r.stream <:+ call.before.rest) ∨
          ∃ r, call.after = .halt .nesting r ∧ record.ending = .halted .nesting r ∧
            parsed.reports = r.reports ++ [⟨r.current, .tooDeep, false⟩] := by
  obtain ⟨parsed, hparsed⟩ := parse_total room (whole_of_readable heof hnumbers)
  have hall (vs : List Token) : parse room (ts ++ eof :: vs) = .ok parsed := by
    have hsplit : ts ++ eof :: vs = (ts ++ [eof]) ++ vs := by simp
    rw [hsplit, parse_append (by rw [hparsed]; nofun), hparsed]
  obtain ⟨s, hstart, -⟩ := State.pullFrom_ahead (by simp [heof]) (List.suffix_append ts (eof :: us))
    ⟨default, ts ++ eof :: us, false, []⟩
  have hrecord : ∃ record, record? room (ts ++ eof :: us) = some record :=
    ⟨_, congrArg (Option.map _) hstart⟩
  obtain ⟨record, hrecord⟩ := hrecord
  refine ⟨parsed, hall, record, hrecord, ?_, ahead_of_record heof (List.suffix_append _ _) hrecord,
    fun call hcall => ?_⟩
  · rw [← parse_of_record hrecord]
    exact hall us
  · have hmade := made_of_record hrecord hcall
    obtain ⟨-, hends⟩ := ends_of_record hrecord hcall
    cases hafter : call.after with
    | ok d r => exact .inl ⟨d, r, rfl, hmade.passes hafter⟩
    | bad r =>
      obtain ⟨n, hn⟩ := hmade.faithful
      exact absurd (hn.symm.trans hafter) (declaration_ne_bad _ _ _ _)
    | halt cause r =>
      have hending := hends cause r hafter
      obtain ⟨rfl, hreports⟩ := nesting_of_halted hrecord (hall us) hending
      exact .inr ⟨r, rfl, hending, hreports⟩

/-- No text gives these tokens. What follows the end could not be read, and has no end. -/
theorem parse_comes_to_an_end_scraps :
    let token (kind : Kind) (lexeme : String) : Token := ⟨kind, lexeme, ⟨1, 1⟩⟩
    let scraps := [token .error "?", token .leftBrace "\x7b", token .kwElse "else",
      token .kwCase "case", token .kwFor "for", token .number "1", token .rightBrace "\x7d",
      token .rightBrace "\x7d", token (.other "Z") "z"]
    let rest := [token .error "!", token .number "one"]
    ∃ parsed, (∀ vs, parse 0 (scraps ++ token .eof "" :: vs) = .ok parsed) ∧
      ∃ record, record? 0 (scraps ++ token .eof "" :: rest) = some record ∧
        record.last.calls.length = 5 ∧ token .eof "" :: rest <:+ record.last.state.stream ∧
        ∀ call ∈ record.last.calls,
          (∃ d r, call.after = .ok d r ∧ r.stream <:+ call.before.rest) ∨
          ∃ r, call.after = .halt .nesting r ∧ record.ending = .halted .nesting r ∧
            parsed.reports = r.reports ++ [⟨r.current, .tooDeep, false⟩] := by
  intro token scraps rest
  have heof : (token .eof "").kind = .eof := rfl
  have hnumbers : ∀ t ∈ scraps, t.kind = .number → (readNumber? t.lexeme).isSome = true := by
    decide +kernel
  obtain ⟨parsed, hparse, record, hrecord, -, hahead, hcalls⟩ :=
    @parse_comes_to_an_end 0 scraps rest _ heof hnumbers
  have hlength : (record? 0 (scraps ++ token .eof "" :: rest)).all fun record =>
      record.last.calls.length = 5 := by decide +kernel
  rw [hrecord, Option.all_some, decide_eq_true_eq] at hlength
  exact ⟨parsed, hparse, record, hrecord, hlength, hahead, hcalls⟩

end Scriptlet.Parse

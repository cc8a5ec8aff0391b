import Scriptlet.Proofs.Diagnostics.Recovered
import Scriptlet.Proofs.Layout.Numbered
import Scriptlet.Proofs.Parsing.Local
import Scriptlet.Proofs.Parsing.Told
import Scriptlet.Scan

/-! The user is told of errors in the order of the text: which tokens they are attributed to does
not depend on where these tokens stand, so they can be told by their indices. -/
namespace Scriptlet

open Parse Diagnostic

/-- How the parse of the tokens ends, if they are not errors only. -/
def ending? (room : Nat) (tokens : List Token) : Option Ending :=
  (State.start? tokens).map fun s =>
    (program (rulesPerToken * (tokens.length + 2)) (operandRules + room) s).2

/-- An error and the index of the token that it is attributed to. -/
structure Notice where
  index : Nat
  cause : SyntaxError
deriving DecidableEq, Repr

def Notice.diagnostic (tokens : List Token) (x : Notice) : Diagnostic :=
  ⟨tokens[x.index]?.getD default, x.cause, false⟩

/-- Of just these errors the user is told, and of too much nesting where there is any, when so many
tokens have been pulled. -/
structure Attribution (room : Nat) (tokens : List Token) (notices : List Notice) (deep : Option Nat)
    (taken : Nat) : Prop where
  increasing : notices.Pairwise fun x y => x.index < y.index
  pulled : ∀ x ∈ notices, x.index < taken
  /-- Each error token is told for itself. -/
  lexical : ∀ i message, ⟨i, .lexical message⟩ ∈ notices ↔
    i < taken ∧ ∃ t, tokens[i]? = some t ∧ t.kind = .error ∧ t.lexeme = message
  shallow : ∀ x ∈ notices, x.cause ≠ .tooDeep
  last : ∀ i ∈ deep, i < taken ∧ ∀ x ∈ notices, x.index ≤ i
  written : ∀ layout, ∃ ending, ending? room (laidOut layout tokens) = some ending ∧
    told ending.reports = (notices ++ (deep.map fun i => Notice.mk i .tooDeep).toList).map
      (Notice.diagnostic (laidOut layout tokens)) ∧
    ending.state.rest = (laidOut layout tokens).drop taken ∧
    ∀ parsed, parse room (laidOut layout tokens) = .ok parsed → parsed.reports = ending.reports

variable {room : Nat} {tokens : List Token}

namespace Parse

variable {l : Layout}

/-- The token at which there was too much nesting. -/
def Ending.deep : Ending → Option Token
  | .halted .nesting s => some s.current
  | _ => none

theorem Ending.current_of_deep {ending : Ending} {t : Token} (h : ending.deep = some t) :
    ending.state.current = t := by
  cases ending with
  | done s => cases h
  | halted cause s =>
    cases cause with
    | nesting => exact Option.some.inj h
    | outOfTokens | badNumber | outOfFuel => cases h

theorem Ending.state_moved (ending : Ending) :
    (ending.moved l).state = ending.state.moved l := by
  cases ending <;> rfl

theorem Ending.told_reports (ending : Ending) :
    told ending.reports =
      told ending.state.reports ++ (ending.deep.map fun t => ⟨t, .tooDeep, false⟩).toList := by
  cases ending with
  | done s => simp [reports, state, deep]
  | halted cause s => cases cause <;> simp [reports, state, deep, State.report, State.calm, told]

theorem Ending.reports_moved (ending : Ending) :
    (ending.moved l).reports = ending.reports.map (Diagnostic.moved l) := by
  cases ending with
  | done s => rfl
  | halted cause s =>
    cases cause <;> simp [moved, reports, State.moved, State.report, State.calm, Diagnostic.moved]

end Parse

theorem ending?_moved (l : Layout) (room : Nat) (tokens : List Token) :
    ending? room (tokens.map (Token.moved l)) = (ending? room tokens).map (Ending.moved l) := by
  simp only [ending?, State.start_moved, List.length_map, Option.map_map]
  congr 1
  funext s
  simp [program_moved]

theorem ending?_orderly {ending : Ending} (h : ending? room tokens = some ending) :
    ending.state.Orderly tokens := by
  obtain ⟨s, hstart, rfl⟩ := Option.map_eq_some_iff.1 h
  exact program_orderly _ (.inl (start_fresh hstart))

/-- There is an end to come to. -/
theorem ending?_numbered (room : Nat) (ts : List Token) {eof : Token} (heof : eof.kind = .eof) :
    ∃ ending, ending? room (numbered (ts ++ [eof])) = some ending := by
  have hlast : numbered (ts ++ [eof]) = numbered ts ++ [{ eof with pos := ⟨ts.length, 0⟩ }] := by
    simp [numbered, laidOut, List.mapIdx_append]
  have hsuffix : [{ eof with pos := ⟨ts.length, 0⟩ }] <:+ numbered (ts ++ [eof]) :=
    hlast ▸ List.suffix_append _ _
  obtain ⟨s, hs, -⟩ := State.pullFrom_ahead (by simp [heof]) hsuffix
    ⟨default, numbered (ts ++ [eof]), false, []⟩
  exact ⟨_, congrArg (Option.map _) hs⟩

def Diagnostic.notice (d : Diagnostic) : Notice := ⟨d.token.pos.line, d.cause⟩

theorem reports_of_parse {parsed : Parsed} (h : parse room tokens = .ok parsed) {ending : Ending}
    (hending : ending? room tokens = some ending) : parsed.reports = ending.reports := by
  obtain ⟨s, hstart, -, hreports⟩ := program_of_parse h
  rw [ending?, hstart] at hending
  obtain rfl := Option.some.inj hending
  exact hreports

section

variable {pulled rest : List Token} (hsplit : numbered tokens = pulled ++ rest)
include hsplit

theorem getElem?_line {t : Token} (ht : t ∈ pulled) :
    (numbered tokens)[t.pos.line]? = some t ∧ t.pos.line < pulled.length := by
  obtain ⟨i, hi, rfl⟩ := List.mem_iff_getElem.1 ht
  have hget : (numbered tokens)[i]? = some pulled[i] := by
    rw [hsplit, List.getElem?_append_left hi, List.getElem?_eq_getElem hi]
  obtain ⟨hline, -⟩ := getElem?_numbered hget
  exact ⟨by rw [hline]; exact hget, by rwa [hline]⟩

theorem notices_increasing {reports : List Diagnostic} (h : InOrder pulled reports) :
    ((told reports).map notice).Pairwise fun x y => x.index < y.index := by
  have hlines := (h.sublist.trans (hsplit ▸ List.sublist_append_left pulled rest)).map
    (·.pos.line)
  rw [lines_numbered] at hlines
  have hsorted := List.pairwise_lt_range.sublist hlines
  rw [List.map_map, List.pairwise_map] at hsorted
  exact List.pairwise_map.2 hsorted

theorem notices_lexical {reports : List Diagnostic} (h : InOrder pulled reports) (i : Nat)
    (message : String) : ⟨i, .lexical message⟩ ∈ (told reports).map notice ↔
      i < pulled.length ∧ ∃ t, tokens[i]? = some t ∧ t.kind = .error ∧ t.lexeme = message := by
  have hmem (d : Diagnostic) : d ∈ told reports ∧ d.cause.isLexical = true ↔
      ∃ t ∈ pulled, t.kind = .error ∧ t.lexicalError = d := by
    have hlexical := congrArg (d ∈ ·) h.lexical
    simpa [and_assoc] using hlexical
  constructor
  · intro hnotice
    obtain ⟨d, hd, hdi⟩ := List.mem_map.1 hnotice
    obtain ⟨hline, hcause⟩ := Notice.mk.inj hdi
    obtain ⟨t, ht, hkind, rfl⟩ := (hmem d).1 ⟨hd, by rw [hcause]; rfl⟩
    obtain ⟨hget, hlt⟩ := getElem?_line hsplit ht
    obtain ⟨-, t', ht', hkind', hlexeme⟩ := getElem?_numbered hget
    obtain rfl : t.pos.line = i := hline
    exact ⟨hlt, t', ht', hkind'.trans hkind, hlexeme.trans (SyntaxError.lexical.inj hcause)⟩
  · rintro ⟨hi, t, ht, hkind, rfl⟩
    have hget : (numbered tokens)[i]? = some { t with pos := ⟨i, 0⟩ } := by
      simp [numbered, laidOut, ht]
    rw [hsplit, List.getElem?_append_left hi] at hget
    obtain ⟨hd, -⟩ := (hmem _).2 ⟨_, List.mem_of_getElem? hget, hkind, rfl⟩
    exact List.mem_map.2 ⟨_, hd, rfl⟩

/-- In every layout the error is one of the token of that index. -/
theorem diagnostic_notice (layout : Nat → Position) {d : Diagnostic} (hd : d.token ∈ pulled)
    (hecho : d.echo = false) :
    d.notice.diagnostic (laidOut layout tokens) = d.moved fun t => layout t.pos.line := by
  obtain ⟨hget, -⟩ := getElem?_line hsplit hd
  obtain ⟨token, cause, echo⟩ := d
  obtain rfl : echo = false := hecho
  simp only [Notice.diagnostic, notice, laidOut_eq_moved, List.getElem?_map] at hget ⊢
  rw [hget]
  rfl

/-- In every layout the user is told of just these errors, and of too much nesting where there is
any. -/
theorem told_laidOut (layout : Nat → Position) {ending : Ending}
    (htoken : ∀ d ∈ told ending.state.reports, d.token ∈ pulled)
    (hdeep : ∀ t ∈ ending.deep, t ∈ pulled) :
    told (ending.moved fun t => layout t.pos.line).reports =
      ((told ending.state.reports).map notice ++
        ((ending.deep.map (·.pos.line)).map fun i => Notice.mk i .tooDeep).toList).map
          (Notice.diagnostic (laidOut layout tokens)) := by
  rw [Ending.reports_moved, Diagnostic.told_moved, Ending.told_reports, List.map_append,
    List.map_append, List.map_map]
  congr 1
  · refine List.map_congr_left fun d hd =>
      (diagnostic_notice hsplit layout (htoken d hd) ?_).symm
    simpa using (List.mem_filter.1 hd).2
  · cases hlast : ending.deep with
    | none => rfl
    | some t =>
      have ht : t ∈ pulled := hdeep t hlast
      exact congrArg ([·])
        (diagnostic_notice hsplit layout (d := ⟨t, .tooDeep, false⟩) ht rfl).symm

end

/-- Of errors the user is told in the order of the tokens that they are attributed to, of no two of
the same token, and of each error token that was pulled; of too much nesting at most once, and last.
Only that may be attributed to the token of the error before. -/
theorem told_in_source_order {ts : List Token} {eof : Token} (heof : eof.kind = .eof) :
    ∃ notices deep taken, Attribution room (ts ++ [eof]) notices deep taken := by
  obtain ⟨ending, hending⟩ := ending?_numbered room ts heof
  obtain ⟨passed, hpassed, hsettled, horder⟩ := ending?_orderly hending
  generalize ts ++ [eof] = tokens at hending hpassed
  have hsplit : numbered tokens = (passed ++ [ending.state.current]) ++ ending.state.rest := by
    rw [hpassed]
    simp [State.stream]
  have htoken {d : Diagnostic} (hd : d ∈ told ending.state.reports) :
      d.token ∈ passed ++ [ending.state.current] := horder.sublist.subset (List.mem_map_of_mem hd)
  have hline {d : Diagnostic} (hd : d ∈ told ending.state.reports) :
      d.notice.index < passed.length + 1 := by
    simpa [notice] using (getElem?_line hsplit (htoken hd)).2
  refine ⟨(told ending.state.reports).map notice, ending.deep.map (·.pos.line), passed.length + 1,
    notices_increasing hsplit horder, fun x hx => ?_, fun i message => ?_, fun x hx => ?_,
    fun i hi => ?_, fun layout => ?_⟩
  · obtain ⟨d, hd, rfl⟩ := List.mem_map.1 hx
    exact hline hd
  · simpa using notices_lexical hsplit horder i message
  · obtain ⟨d, hd, rfl⟩ := List.mem_map.1 hx
    exact horder.shallow d hd
  · -- the token of too much nesting is the last one that was pulled
    obtain ⟨t, ht, rfl⟩ := Option.map_eq_some_iff.1 hi
    have hcurrent : (numbered tokens)[passed.length]? = some t := by
      simp [hsplit, Ending.current_of_deep ht]
    obtain ⟨hlast, -⟩ := getElem?_numbered hcurrent
    rw [hlast]
    refine ⟨Nat.lt_succ_self _, fun x hx => ?_⟩
    obtain ⟨d, hd, rfl⟩ := List.mem_map.1 hx
    exact Nat.le_of_lt_succ (hline hd)
  · have hmoved : ending? room (laidOut layout tokens) =
        some (ending.moved fun t => layout t.pos.line) := by
      rw [laidOut_eq_moved, ending?_moved, hending]
      rfl
    have hdeep : ∀ t ∈ ending.deep, t ∈ passed ++ [ending.state.current] := fun t ht => by
      simp [Ending.current_of_deep ht]
    refine ⟨_, hmoved, told_laidOut hsplit layout (fun _ => htoken) hdeep, ?_,
      fun parsed h => reports_of_parse h hmoved⟩
    rw [Ending.state_moved, laidOut_eq_moved, hsplit, List.map_append]
    exact (List.drop_left' (by simp)).symm

/-- The keyword and the sign are told of late, but before the error token that comes after them. -/
theorem told_in_source_order_late :
    ∃ ts eof notices deep taken, ts ++ [eof] = scan "break; 1 = 2; 3 @ 4" ∧ eof.kind = .eof ∧
      Attribution 9 (ts ++ [eof]) notices deep taken ∧
      (notices ++ (deep.map fun i => Notice.mk i .tooDeep).toList).map (·.cause) =
        [.strayJump .exit, .assignmentTarget, .lexical "Unexpected character '@'."] := by
  let ts := (scan "break; 1 = 2; 3 @ 4").dropLast
  let eof : Token := ⟨.eof, "", ⟨1, 20⟩⟩
  have heof : eof.kind = .eof := rfl
  obtain ⟨notices, deep, taken, h⟩ : ∃ notices deep taken,
      Attribution 9 (ts ++ [eof]) notices deep taken := told_in_source_order heof
  refine ⟨ts, eof, notices, deep, taken, by decide +kernel, rfl, h, ?_⟩
  obtain ⟨ending, hending, htold, -⟩ := h.written fun _ => default
  have hcauses : (ending? 9 (laidOut (fun _ => default) (ts ++ [eof]))).map
      (fun e => (told e.reports).map (·.cause)) =
        some [.strayJump .exit, .assignmentTarget, .lexical "Unexpected character '@'."] := by
    decide +kernel
  rw [hending, Option.map_some, htold, List.map_map] at hcauses
  exact Option.some.inj hcauses

end Scriptlet

import Scriptlet.Proofs.Scanning.Lexical

/-! A text is its tokens with gaps between them: nothing of it is lost, and each token stands where
it says. -/
namespace Scriptlet

variable {before cs rest lexeme : List Char} {kind : Kind} {n : Nat} {c s : Cursor} {t : Token}

/-- Where the text goes on after `before`: its lines counted from one, and the characters since the
last newline. -/
def Position.past (before : List Char) : Position :=
  ⟨1 + before.count '\n', 1 + (before.reverse.takeWhile (· != '\n')).length⟩

/-- The text a token stands for. An error stands for the character that offends, or for all the text
from the mark on that nothing closes. -/
inductive Token.Covers : Token → (lexeme rest : List Char) → Prop where
  | lexeme {kind : Kind} {cs rest : List Char} {pos : Position} (hkind : kind ≠ .error) :
    Covers ⟨kind, String.ofList cs, pos⟩ cs rest
  | character {cause : LexicalError} {c : Char} {rest : List Char} {pos : Position}
    (hcause : cause = .unexpected c ∨ (cause = .loneAmpersand ∧ c = '&') ∨
      (cause = .loneBar ∧ c = '|')) : Covers ⟨.error, cause.message, pos⟩ [c] rest
  | openString {cs : List Char} {pos : Position} (hopen : '"' ∉ cs) :
    Covers ⟨.error, LexicalError.openString.message, pos⟩ ('"' :: cs) []
  | openComment {cs : List Char} {pos : Position} (hopen : ¬ ClosesComment cs) :
    Covers ⟨.error, LexicalError.openComment.message, pos⟩ ('/' :: '*' :: cs) []

/-- The text after `before` is a gap, the text of the first token, a gap, and so on to a last gap;
each token has the position of its text. -/
inductive Tiles : (before text : List Char) → List Token → Prop where
  | last {before gap : List Char} (hgap : IsGap [] gap) : Tiles before gap []
  | token {before gap lexeme rest : List Char} {t : Token} {ts : List Token}
    (hgap : IsGap (lexeme ++ rest) gap) (hne : lexeme ≠ []) (heof : t.kind ≠ .eof)
    (hlexeme : t.Covers lexeme rest) (hpos : t.pos = .past (before ++ gap))
    (hrest : Tiles (before ++ gap ++ lexeme) rest ts) :
    Tiles before (gap ++ (lexeme ++ rest)) (t :: ts)

theorem Position.after_past (before : List Char) (c : Char) :
    (Position.past before).after c = .past (before ++ [c]) := by
  unfold past after
  by_cases hc : c = '\n'
  · simp [hc, Nat.add_assoc]
  · simp [hc, Nat.add_assoc]

/-- Stepping over the characters one by one keeps count of them. -/
theorem Position.advance_past (before cs : List Char) :
    (Position.past before).advance cs = .past (before ++ cs) := by
  induction cs generalizing before with
  | nil => simp
  | cons c cs ih =>
    change ((Position.past before).after c).advance cs = _
    rw [after_past, ih, List.append_assoc, List.singleton_append]

theorem Tiles.kind_ne {ts : List Token} (h : Tiles before cs ts) : ∀ t ∈ ts, t.kind ≠ .eof := by
  induction h with
  | last => nofun
  | token hgap hne heof hlexeme hpos hrest ih => exact List.forall_mem_cons.2 ⟨heof, ih⟩

/-- What an error stands for. -/
theorem covers_of_bad {cause : LexicalError} (h : munch cs = .bad cause n) (hbare : Bare cs)
    (pos : Position) : Token.Covers ⟨.error, cause.message, pos⟩ (cs.take n) (cs.drop n) := by
  unfold munch at h
  split at h
  case h_13 cs =>
    obtain ⟨rfl, rfl⟩ := Munch.bad.inj h
    obtain ⟨body, hbody, hopen⟩ := hbare.unclosed ⟨cs, rfl⟩
    obtain rfl : cs = body := by simpa using hbody
    rw [List.take_of_length_le (by simp; omega), List.drop_of_length_le (by simp; omega)]
    exact .openComment hopen
  case h_25 =>
    obtain ⟨rfl, rfl⟩ := Munch.bad.inj h
    exact .character (.inr (.inl ⟨rfl, rfl⟩))
  case h_27 =>
    obtain ⟨rfl, rfl⟩ := Munch.bad.inj h
    exact .character (.inr (.inr ⟨rfl, rfl⟩))
  case h_28 cs =>
    change munch ('"' :: cs) = _ at h
    by_cases hquote : '"' ∈ cs
    · obtain ⟨body, rest, rfl, hbody⟩ := List.eq_append_cons_of_mem hquote
      rw [munch_string hbody] at h
      cases h
    · rw [munch_openString hquote] at h
      obtain ⟨rfl, rfl⟩ := Munch.bad.inj h
      rw [List.take_of_length_le (by simp), List.drop_of_length_le (by simp)]
      exact .openString hquote
  case h_29 c cs _ _ _ _ _ _ _ _ _ _ _ _ _ _ _ _ _ _ _ _ _ _ _ _ _ _ _ =>
    split at h
    · cases h
    · split at h
      · cases h
      · obtain ⟨rfl, rfl⟩ := Munch.bad.inj h
        exact .character (.inl rfl)
  all_goals cases h

/-- The text of the token that starts here is the text the scanner goes past. -/
theorem covers_token (hrest : c.rest ≠ []) (hbare : Bare c.rest) :
    c.token.Covers (c.rest.take (munch c.rest).length) (c.rest.drop (munch c.rest).length) := by
  unfold Cursor.token
  cases hmunch : munch c.rest with
  | token kind n =>
    obtain ⟨-, hkind, -⟩ := munch_kind hmunch hrest
    exact .lexeme hkind
  | bad cause n => exact covers_of_bad hmunch hbare _

/-- The gap in front of the next token. -/
theorem skipGap_spec (c : Cursor) :
    ∃ gap, c.rest = gap ++ c.skipGap.rest ∧ c.skipGap.pos = c.pos.advance gap ∧
      IsGap c.skipGap.rest gap ∧ Bare c.skipGap.rest := by
  obtain ⟨gap, rest, hsplit, hlength, hgap, hbare⟩ := gapLength_spec c.rest
  have hrest : c.skipGap.rest = rest := by
    rw [Cursor.skipGap, Cursor.advance, hlength, hsplit, List.drop_left]
  have hpos : c.skipGap.pos = c.pos.advance gap := by
    rw [Cursor.skipGap, Cursor.advance, hlength, hsplit, List.take_left]
  rw [hrest]
  exact ⟨gap, hsplit, hpos, hgap, bare_of_gapLength hbare⟩

/-- The next token, the gap before it and its text. -/
theorem next_spec (hpos : c.pos = .past before) (hrest : c.skipGap.rest ≠ []) :
    ∃ gap lexeme, c.rest = gap ++ (lexeme ++ c.skipGap.pastToken.rest) ∧
      c.skipGap.rest = lexeme ++ c.skipGap.pastToken.rest ∧
      IsGap c.skipGap.rest gap ∧ Bare c.skipGap.rest ∧ lexeme ≠ [] ∧
      c.skipGap.token.Covers lexeme c.skipGap.pastToken.rest ∧
      c.skipGap.pos = .past (before ++ gap) ∧
      c.skipGap.pastToken.pos = .past (before ++ gap ++ lexeme) := by
  obtain ⟨gap, hsplit, hskip, hgap, hbare⟩ := skipGap_spec c
  have htext := List.take_append_drop (munch c.skipGap.rest).length c.skipGap.rest
  rw [hpos, Position.advance_past] at hskip
  refine ⟨gap, _, ?_, htext.symm, hgap, hbare, ?_, covers_token hrest hbare, hskip, ?_⟩
  · rw [hsplit]
    exact congrArg (gap ++ ·) htext.symm
  · simp [hrest, Nat.ne_of_gt (munch_length_pos hrest)]
  · rw [Cursor.pastToken, Cursor.advance, hskip, Position.advance_past]

namespace Cursor

theorem tokens_tile (hpos : c.pos = .past before) :
    ∃ ts, c.tokens = ts ++ [⟨.eof, "", .past (before ++ c.rest)⟩] ∧ Tiles before c.rest ts := by
  fun_induction tokens c generalizing before with
  | case1 c hend =>
    obtain ⟨gap, hsplit, hskip, hgap, -⟩ := skipGap_spec c
    rw [hend, List.append_nil] at hsplit
    rw [hend] at hgap
    rw [hpos, Position.advance_past] at hskip
    rw [token_end hend, hskip, hsplit]
    exact ⟨[], rfl, .last hgap⟩
  | case2 c hmore ih =>
    obtain ⟨gap, lexeme, hsplit, hrest, hgap, -, hne, hcovers, hskip, hpast⟩ := next_spec hpos hmore
    obtain ⟨ts, htokens, htiles⟩ := ih hpast
    rw [hrest] at hgap
    rw [hsplit, htokens]
    refine ⟨c.skipGap.token :: ts, by simp, .token hgap hne (kind_token hmore).1 hcovers ?_ htiles⟩
    rw [pos_token, hskip]

/-- At the end of the text the scanner stays there. -/
theorem next_end (hend : c.skipGap.rest = []) : c.skipGap.pastToken.skipGap = c.skipGap := by
  generalize c.skipGap = s at hend ⊢
  obtain ⟨rest, pos⟩ := s
  obtain rfl : rest = [] := hend
  simp [pastToken, skipGap, advance, munch, Munch.length, gapLength]

theorem steps_end (hend : c.skipGap.rest = []) (k : Nat) :
    c.steps k = List.replicate k c.skipGap.token := by
  induction k generalizing c with
  | zero => rfl
  | succ k ih =>
    have hnext := next_end hend
    rw [steps, List.replicate_succ, next, ih (by rw [hnext, hend]), hnext]

/-- The tokens one by one, and then the end again and again. -/
theorem steps_tokens {ts : List Token} {eof : Token} (h : c.tokens = ts ++ [eof]) (k : Nat) :
    c.steps (ts.length + k) = ts ++ List.replicate k eof := by
  fun_induction tokens c generalizing ts with
  | case1 c hend =>
    obtain ⟨rfl, rfl⟩ : ts = [] ∧ eof = c.skipGap.token := by
      cases ts with
      | nil => exact ⟨rfl, (List.cons.inj h).1.symm⟩
      | cons t ts => simp at h
    rw [List.length_nil, Nat.zero_add, steps_end hend, List.nil_append]
  | case2 c hmore ih =>
    cases ts with
    | nil =>
      obtain ⟨us, eof', hus, -⟩ := c.skipGap.pastToken.tokens_end
      simp [hus] at h
    | cons t ts =>
      obtain ⟨rfl, htail⟩ := List.cons.inj h
      rw [List.length_cons, Nat.add_right_comm, steps, next, ih htail, List.cons_append]

end Cursor

/-- The scanner splits every text: gaps and the texts of its tokens in turn are the whole of it,
each token has the position its text has, the end that of the end. Asked for more, the scanner says
the end again. -/
theorem scan_splits (text : String) :
    ∃ ts eof, scan text = ts ++ [eof] ∧ eof = ⟨.eof, "", .past text.toList⟩ ∧
      (∀ t ∈ ts, t.kind ≠ .eof) ∧ Tiles [] text.toList ts ∧
      ∀ k, (Cursor.ofText text).steps (ts.length + k) = ts ++ List.replicate k eof := by
  have hfirst : (Cursor.ofText text).pos = .past [] := rfl
  obtain ⟨ts, htokens, htiles⟩ := Cursor.tokens_tile hfirst
  exact ⟨ts, _, htokens, rfl, htiles.kind_ne, htiles, Cursor.steps_tokens htokens⟩

end Scriptlet

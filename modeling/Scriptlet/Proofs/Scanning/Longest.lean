import Scriptlet.Proofs.Scanning.Splitting

/-! The scanner takes the longest lexeme there is, and an error stands where there is none. -/
namespace Scriptlet

variable {before cs rest lexeme : List Char} {kind : Kind} {n : Nat} {c : Cursor} {t : Token}

/-- No lexeme at the front of the text is longer, and this one is of no other kind. -/
structure Longest (cs : List Char) (kind : Kind) (lexeme : List Char) : Prop where
  front : lexeme <+: cs
  isLexeme : IsLexeme kind lexeme
  longest : ∀ k l, IsLexeme k l → l <+: cs → l.length ≤ lexeme.length
  only : ∀ k, IsLexeme k lexeme → k = kind

/-- The text begins with a comment that nothing closes, or no lexeme is at its front. -/
def Hopeless (cs : List Char) : Prop :=
  Unclosed cs ∨ ∀ k l, IsLexeme k l → ¬ l <+: cs

theorem longest_of_munch (h : munch cs = .token kind n) (hcs : cs ≠ []) :
    Longest cs kind (cs.take n) := by
  have hopen : ¬ OpensComment cs := by
    rintro ⟨body, rfl⟩
    cases h
  -- What is taken at the front of a lexeme and what follows it is what is taken here.
  have htaken {k : Kind} {l : List Char} (hl : IsLexeme k l) (hfront : l <+: cs) :
      l.length ≤ n ∧ (n = l.length → kind = k) := by
    obtain ⟨rest, rfl⟩ := hfront
    obtain ⟨k', n', hmunch, hlength, hkind⟩ := munch_of_isLexeme hl hopen
    obtain ⟨rfl, rfl⟩ := Munch.token.inj (hmunch.symm.trans h)
    exact ⟨hlength, hkind⟩
  have hn : n ≤ cs.length := by simpa [h, Munch.length] using munch_length_le cs
  have hlength : (cs.take n).length = n := List.length_take_of_le hn
  refine ⟨List.take_prefix n cs, isLexeme_munch h hcs, fun k l hl hfront => ?_, fun k hl => ?_⟩
  · rw [hlength]
    exact (htaken hl hfront).1
  · exact ((htaken hl (List.take_prefix n cs)).2 hlength.symm).symm

theorem hopeless_iff (hcs : cs ≠ []) (hbare : Bare cs) :
    Hopeless cs ↔ ∃ cause n, munch cs = .bad cause n := by
  constructor
  · intro h
    cases hmunch : munch cs with
    | bad cause n => exact ⟨cause, n, rfl⟩
    | token kind n =>
      obtain ⟨body, rfl, -⟩ | hnone := h
      · cases hmunch
      · exact absurd (List.take_prefix n cs) (hnone kind _ (isLexeme_munch hmunch hcs))
  · rintro ⟨cause, n, hmunch⟩
    by_cases hopen : OpensComment cs
    · exact .inl (hbare.unclosed hopen)
    · refine .inr fun k l hl hfront => ?_
      obtain ⟨rest, rfl⟩ := hfront
      obtain ⟨k', n', htoken, -⟩ := munch_of_isLexeme hl hopen
      rw [hmunch] at htoken
      cases htoken

/-- The token at the front of a text that no gap stands in front of. -/
theorem longest_token (hrest : c.rest ≠ []) (hbare : Bare c.rest) :
    (c.token.kind ≠ .error → Longest c.rest c.token.kind c.token.lexeme.toList) ∧
      (c.token.kind = .error ↔ Hopeless c.rest) := by
  rw [hopeless_iff hrest hbare]
  unfold Cursor.token
  cases hmunch : munch c.rest with
  | token kind n =>
    obtain ⟨-, hkind, -⟩ := munch_kind hmunch hrest
    refine ⟨fun _ => ?_, fun h => absurd h hkind, nofun⟩
    simpa using longest_of_munch hmunch hrest
  | bad cause n => exact ⟨fun h => absurd rfl h, fun _ => ⟨cause, n, rfl⟩, fun _ => rfl⟩

/-- No two places of a text have the same position. -/
theorem Position.past_injective {front back front' back' : List Char}
    (hsplit : front ++ back = front' ++ back') (hpos : past front = past front') :
    front = front' := by
  -- The longer of the two goes on with no newline and with no character.
  have hnil {front more : List Char} (h : past front = past (front ++ more)) : more = [] := by
    obtain ⟨hline, hcolumn⟩ := Position.mk.inj h
    have hnewline : '\n' ∉ more := by
      rw [List.count_append] at hline
      exact List.count_eq_zero.1 (by omega)
    have hall : ∀ d ∈ more.reverse, (d != '\n') = true := fun d hd => by
      simpa using ne_of_mem_of_not_mem (List.mem_reverse.1 hd) hnewline
    rw [List.reverse_append, List.takeWhile_append_of_pos hall, List.length_append,
      List.length_reverse] at hcolumn
    exact List.length_eq_zero_iff.1 (by omega)
  rcases List.append_eq_append_iff.1 hsplit with ⟨more, rfl, -⟩ | ⟨more, rfl, -⟩
  · rw [hnil hpos, List.append_nil]
  · rw [hnil hpos.symm, List.append_nil]

/-- The text from the token on. -/
def Token.StartsAt (text : String) (t : Token) (rest : List Char) : Prop :=
  ∃ before, text.toList = before ++ rest ∧ t.pos = .past before

theorem Token.StartsAt.eq {text : String} {rest rest' : List Char} (h : t.StartsAt text rest)
    (h' : t.StartsAt text rest') : rest = rest' := by
  obtain ⟨before, hsplit, hpos⟩ := h
  obtain ⟨before', hsplit', hpos'⟩ := h'
  obtain rfl := Position.past_injective (hsplit.symm.trans hsplit') (hpos.symm.trans hpos')
  exact List.append_cancel_left (hsplit.symm.trans hsplit')

theorem Cursor.longest_tokens (hpos : c.pos = .past before) (ht : t ∈ c.tokens)
    (heof : t.kind ≠ .eof) :
    ∃ gap rest, c.rest = gap ++ rest ∧ t.pos = .past (before ++ gap) ∧ Bare rest ∧
      (t.kind ≠ .error → Longest rest t.kind t.lexeme.toList) ∧
      (t.kind = .error ↔ Hopeless rest) := by
  fun_induction tokens c generalizing before with
  | case1 c hend =>
    obtain rfl := List.mem_singleton.1 ht
    rw [token_end hend] at heof
    exact absurd rfl heof
  | case2 c hmore ih =>
    obtain ⟨gap, lexeme, hsplit, hrest, -, hbare, -, -, hskip, hpast⟩ := next_spec hpos hmore
    rcases List.mem_cons.1 ht with rfl | ht
    · refine ⟨gap, c.skipGap.rest, ?_, ?_, hbare, longest_token hmore hbare⟩
      · rw [hsplit, ← hrest]
      · rw [pos_token, hskip]
    · obtain ⟨front, rest, htail, htpos, hspec⟩ := ih hpast ht
      refine ⟨gap ++ lexeme ++ front, rest, ?_, ?_, hspec⟩
      · rw [hsplit, htail]
        simp
      · rw [htpos]
        simp

/-- A token is the longest lexeme at the place where it stands, and of the kind of that lexeme. It
is an error where a comment is not closed and where no lexeme stands, and nowhere else. -/
theorem scan_longest {text : String} {t : Token} (ht : t ∈ scan text) (heof : t.kind ≠ .eof) :
    ∃ rest, t.StartsAt text rest ∧ (∀ rest', t.StartsAt text rest' → rest' = rest) ∧ Bare rest ∧
      (t.kind ≠ .error → Longest rest t.kind t.lexeme.toList) ∧
      (t.kind = .error ↔ Hopeless rest) := by
  have hfirst : (Cursor.ofText text).pos = .past [] := rfl
  obtain ⟨before, rest, hsplit, hpos, hbare, hlongest⟩ := Cursor.longest_tokens hfirst ht heof
  have hstarts : t.StartsAt text rest := ⟨before, hsplit, hpos⟩
  exact ⟨rest, hstarts, fun rest' h' => h'.eq hstarts, hbare, hlongest⟩

/-- The point after a fraction is no part of the number. -/
theorem scan_longest_fraction :
    (⟨.number, "1.2", ⟨1, 2⟩⟩ : Token) ∈ scan "-1.2.3" ∧
      Longest "1.2.3".toList .number "1.2".toList := by
  have hmem : (⟨.number, "1.2", ⟨1, 2⟩⟩ : Token) ∈ scan "-1.2.3" := by decide +kernel
  obtain ⟨rest, -, honly, -, hlongest, -⟩ := scan_longest hmem nofun
  obtain rfl : "1.2.3".toList = rest := honly _ ⟨['-'], rfl, rfl⟩
  exact ⟨hmem, hlongest nofun⟩

end Scriptlet

import Scriptlet.Proofs.Scanning.Seam

/-! The lexical grammar, said without a scanner: what a gap is, and what the lexemes of each kind
are. The gap the scanner skips is one and leaves none behind; the lexeme it takes is one and none is
longer. -/
namespace Scriptlet

variable {c : Char} {cs ds gap lexeme rest : List Char} {kind : Kind} {n : Nat}

/-- The two characters stand next to each other somewhere in the text. -/
def ClosesComment (cs : List Char) : Prop := ['*', '/'] <:+: cs

/-- Text without meaning: blanks and comments, given what comes after it. A line comment goes on to
the end of its line, a block comment to the first mark that closes it. -/
inductive IsGap (rest : List Char) : List Char → Prop where
  | nil : IsGap rest []
  | blank {c : Char} {gap : List Char} (hc : c ∈ [' ', '\r', '\t', '\n']) (hgap : IsGap rest gap) :
    IsGap rest (c :: gap)
  | line {body gap : List Char} (hbody : '\n' ∉ body)
    (hend : ∀ c ∈ (gap ++ rest).head?, c = '\n') (hgap : IsGap rest gap) :
    IsGap rest ('/' :: '/' :: (body ++ gap))
  | block {body gap : List Char} (hbody : ¬ ClosesComment (body ++ ['*'])) (hgap : IsGap rest gap) :
    IsGap rest ('/' :: '*' :: (body ++ '*' :: '/' :: gap))

/-- No gap stands at the front. -/
def Bare (cs : List Char) : Prop := ∀ gap rest, cs = gap ++ rest → IsGap rest gap → gap = []

/-- The text is a comment that nothing closes. -/
def Unclosed (cs : List Char) : Prop := ∃ body, cs = '/' :: '*' :: body ∧ ¬ ClosesComment body

/-- The operators and punctuators. -/
def Kind.signs : List (List Char × Kind) :=
  [(['('], .leftParen), ([')'], .rightParen), (['{'], .leftBrace), (['}'], .rightBrace),
    ([','], .comma), ([';'], .semicolon), ([':'], .colon), (['?'], .question), (['+'], .plus),
    (['-'], .minus), (['*'], .star), (['/'], .slash), (['%'], .percent), (['!'], .bang),
    (['!', '='], .bangEqual), (['='], .equal), (['=', '='], .equalEqual), (['<'], .less),
    (['<', '='], .lessEqual), (['>'], .greater), (['>', '='], .greaterEqual), (['&', '&'], .and),
    (['|', '|'], .or)]

/-- A word starts with a letter; letters and digits follow. -/
def IsWord (cs : List Char) : Prop :=
  ∃ c ds, cs = c :: ds ∧ isLetter c = true ∧ ∀ d ∈ ds, isLetter d = true ∨ isDigit d = true

/-- The lexemes of each kind. -/
inductive IsLexeme : Kind → List Char → Prop where
  | sign {kind : Kind} {cs : List Char} (h : (cs, kind) ∈ Kind.signs) : IsLexeme kind cs
  | string {body : List Char} (hbody : '"' ∉ body) : IsLexeme .string ('"' :: (body ++ ['"']))
  | number {cs : List Char} (h : IsNumeral cs) : IsLexeme .number cs
  | keyword {word : String} {kind : Kind} (h : (word, kind) ∈ Kind.keywords) :
    IsLexeme kind word.toList
  | identifier {cs : List Char} (h : IsWord cs)
    (hfree : ∀ kind, (String.ofList cs, kind) ∉ Kind.keywords) : IsLexeme .identifier cs

/-! Gaps. -/

theorem isBlank_iff : isBlank c = true ↔ c ∈ [' ', '\r', '\t', '\n'] := by
  simp [isBlank, or_assoc]

theorem closing?_eq_none : closing? cs = none ↔ ¬ ClosesComment cs := by
  unfold ClosesComment
  fun_induction closing? cs with
  | case1 cs => simpa using ⟨[], cs, rfl⟩
  | case2 c cs hopen ih =>
    rw [Option.map_eq_none_iff, ih, List.infix_cons_iff, not_or]
    refine ⟨fun h => ⟨fun hp => ?_, h⟩, And.right⟩
    obtain ⟨ds, hds⟩ := hp
    obtain ⟨rfl, rfl⟩ := List.cons.inj hds
    exact hopen ds rfl rfl
  | case3 => simp

theorem closing?_eq_some (h : closing? cs = some n) :
    ∃ body rest, cs = body ++ '*' :: '/' :: rest ∧ n = body.length + 2 ∧
      ¬ ClosesComment (body ++ ['*']) := by
  fun_induction closing? cs generalizing n with
  | case1 cs =>
    obtain rfl := Option.some.inj h
    exact ⟨[], cs, rfl, rfl, by rw [← closing?_eq_none]; rfl⟩
  | case2 c cs hopen ih =>
    obtain ⟨k, hk, rfl⟩ := Option.map_eq_some_iff.1 h
    obtain ⟨body, rest, rfl, rfl, hbody⟩ := ih hk
    refine ⟨c :: body, rest, rfl, rfl, ?_⟩
    rw [← closing?_eq_none] at hbody ⊢
    rw [List.cons_append, closing?, hbody]
    · rfl
    · rintro ds rfl hds
      cases body with
      | nil => cases hds
      | cons d body =>
        obtain ⟨rfl, -⟩ := List.cons.inj hds
        exact hopen _ rfl rfl
  | case3 => cases h

/-- A text up to the first character that is not `p`, and from there on. -/
theorem takeWhile_split (p : Char → Bool) (cs : List Char) :
    ∃ body rest, cs = body ++ rest ∧ cs.takeWhile p = body ∧ (∀ d ∈ body, p d = true) ∧
      ∀ d ∈ rest.head?, p d = false := by
  refine ⟨cs.takeWhile p, cs.dropWhile p, List.takeWhile_append_dropWhile.symm, rfl,
    fun _ => List.mem_takeWhile_imp, fun d hd => ?_⟩
  have hnot := List.head?_dropWhile_not p cs
  rw [hd] at hnot
  simpa using hnot

/-- The gap that is skipped is one, and no other comes after it. -/
theorem gapLength_spec (cs : List Char) :
    ∃ gap rest, cs = gap ++ rest ∧ gapLength cs = gap.length ∧ IsGap rest gap ∧
      gapLength rest = 0 := by
  fun_induction gapLength cs with
  | case1 cs n ih =>
    obtain ⟨body, tail, rfl, htake, hbody, hend⟩ := takeWhile_split (· != '\n') cs
    have hn : n = body.length := congrArg List.length htake
    rw [hn, List.drop_left] at ih ⊢
    obtain ⟨gap, rest, rfl, hgap, hisGap, hrest⟩ := ih
    have hline : '\n' ∉ body := fun h => by simpa using hbody _ h
    have hnewline : ∀ c ∈ (gap ++ rest).head?, c = '\n' := fun c hc => by simpa using hend c hc
    refine ⟨'/' :: '/' :: (body ++ gap), rest, by simp, ?_, .line hline hnewline hisGap, hrest⟩
    simp only [hgap, List.length_cons, List.length_append]
    omega
  | case2 cs n hclosing ih =>
    obtain ⟨body, tail, rfl, rfl, hbody⟩ := closing?_eq_some hclosing
    have hdrop : (body ++ '*' :: '/' :: tail).drop (body.length + 2) = tail := by simp
    rw [hdrop] at ih ⊢
    obtain ⟨gap, rest, rfl, hgap, hisGap, hrest⟩ := ih
    refine ⟨'/' :: '*' :: (body ++ '*' :: '/' :: gap), rest, by simp, ?_, .block hbody hisGap,
      hrest⟩
    simp only [hgap, List.length_cons, List.length_append]
    omega
  | case3 cs hclosing =>
    exact ⟨[], '/' :: '*' :: cs, rfl, rfl, .nil, by simp [gapLength, hclosing]⟩
  | case4 c cs _ _ hblank ih =>
    obtain ⟨gap, rest, rfl, hgap, hisGap, hrest⟩ := ih
    exact ⟨c :: gap, rest, rfl, by rw [hgap, List.length_cons, Nat.add_comm],
      .blank (isBlank_iff.1 hblank) hisGap, hrest⟩
  | case5 c cs hline hblock hblank =>
    refine ⟨[], c :: cs, rfl, rfl, .nil, ?_⟩
    exact gapLength_token (Bool.eq_false_iff.2 hblank)
      (fun rest h => hline rest h.1 h.2) (fun rest h => hblock rest h.1 h.2)
  | case6 => exact ⟨[], [], rfl, rfl, .nil, by simp [gapLength]⟩

/-- Where the scanner finds no gap, there is none. -/
theorem bare_of_gapLength (h : gapLength cs = 0) : Bare cs := by
  rintro gap rest rfl hgap
  cases hgap with
  | nil => rfl
  | blank hc =>
    rw [List.cons_append, gapLength_blank (isBlank_iff.2 hc)] at h
    omega
  | line => simp [gapLength] at h
  | @block body gap =>
    cases hclosing : closing? (body ++ '*' :: '/' :: (gap ++ rest)) with
    | none => exact absurd ⟨body, gap ++ rest, by simp⟩ (closing?_eq_none.1 hclosing)
    | some n => simp [gapLength, hclosing] at h

/-- A comment where no gap stands is not closed. -/
theorem Bare.unclosed (h : Bare cs) (hopen : OpensComment cs) : Unclosed cs := by
  obtain ⟨body, rfl⟩ := hopen
  refine ⟨body, rfl, fun hcloses => ?_⟩
  cases hclosing : closing? body with
  | none => exact closing?_eq_none.1 hclosing hcloses
  | some n =>
    obtain ⟨inner, rest, rfl, -, hinner⟩ := closing?_eq_some hclosing
    exact absurd (h ('/' :: '*' :: (inner ++ ['*', '/'])) rest (by simp) (.block hinner .nil)) nofun

/-! Lexemes. -/

theorem length_digits_le (cs : List Char) : (cs.takeWhile isDigit).length ≤ numberLength cs := by
  unfold numberLength
  dsimp only
  split
  · split
    · omega
    · exact Nat.le_refl _
  · exact Nat.le_refl _

/-- No number at the front of a text is longer than the one that is taken. -/
theorem IsNumeral.length_le (h : IsNumeral lexeme) (rest : List Char) :
    lexeme.length ≤ numberLength (lexeme ++ rest) := by
  cases h with
  | whole hds hdigits =>
    refine Nat.le_trans ?_ (length_digits_le _)
    rw [List.takeWhile_append_of_pos hdigits, List.length_append]
    exact Nat.le_add_right _ _
  | @point ds es hds hdigits hes hfraction =>
    have hpoint : isDigit '.' = false := by decide
    have htake : (ds ++ '.' :: (es ++ rest)).takeWhile isDigit = ds := by
      rw [List.takeWhile_append_of_pos hdigits]
      simp [hpoint]
    have htail : (es ++ rest).takeWhile isDigit = es ++ rest.takeWhile isDigit :=
      List.takeWhile_append_of_pos hfraction
    obtain ⟨e, es, rfl⟩ := List.exists_cons_of_ne_nil hes
    rw [List.append_assoc, List.cons_append]
    unfold numberLength
    dsimp only
    rw [htake, List.drop_left]
    dsimp only [List.cons_append] at htail ⊢
    simp only [if_pos (hfraction e List.mem_cons_self), htail, List.length_append, List.length_cons]
    omega

/-- No word at the front of a text is longer than the one that is taken. -/
theorem IsWord.length_le (h : IsWord lexeme) (rest : List Char) :
    lexeme.length ≤ wordLength (lexeme ++ rest) := by
  obtain ⟨c, ds, rfl, hc, hds⟩ := h
  have hall : ∀ d ∈ c :: ds, (isLetter d || isDigit d) = true := by
    simpa [hc] using hds
  unfold wordLength
  rw [List.takeWhile_append_of_pos hall, List.length_append]
  exact Nat.le_add_right _ _

theorem isWord_keyword {word : String} (h : (word, kind) ∈ Kind.keywords) :
    IsWord word.toList := by
  have hall : ∀ p ∈ Kind.keywords, p.1.toList ≠ [] ∧ p.1.toList.all isLetter = true := by decide
  obtain ⟨hne, hletters⟩ := hall _ h
  obtain ⟨c, ds, hword⟩ := List.exists_cons_of_ne_nil hne
  have hmem : ∀ d ∈ c :: ds, isLetter d = true := by
    rw [← hword]
    exact List.all_eq_true.1 hletters
  exact ⟨c, ds, hword, hmem c List.mem_cons_self,
    fun d hd => .inl (hmem d (List.mem_cons_of_mem _ hd))⟩

theorem isWord_take (hc : isLetter c = true) (cs : List Char) :
    IsWord ((c :: cs).take (wordLength (c :: cs))) := by
  unfold wordLength
  rw [take_length_takeWhile, List.takeWhile_cons_of_pos (by simp [hc])]
  exact ⟨c, _, rfl, hc, fun d hd => by simpa using List.mem_takeWhile_imp hd⟩

theorem Kind.ofWord_eq {word : String} (h : (word, kind) ∈ Kind.keywords) :
    Kind.ofWord word = kind := by
  have hall : ∀ p ∈ Kind.keywords, Kind.ofWord p.1 = p.2 := by decide
  exact hall _ h

theorem Kind.ofWord_free {word : String} (h : ∀ kind, (word, kind) ∉ Kind.keywords) :
    Kind.ofWord word = .identifier := by
  rcases List.mem_cons.1 (Kind.ofWord_mem word) with hword | hword
  · exact hword
  · unfold Kind.ofWord at hword ⊢
    cases hlookup : Kind.keywords.lookup word with
    | none => rfl
    | some kind =>
      obtain ⟨front, back, hsplit, -⟩ := List.lookup_eq_some_iff.1 hlookup
      exact absurd (by simp [hsplit]) (h kind)

theorem isLexeme_ofWord (h : IsWord cs) : IsLexeme (Kind.ofWord (String.ofList cs)) cs := by
  by_cases hkeyword : ∃ kind, (String.ofList cs, kind) ∈ Kind.keywords
  · obtain ⟨kind, hkeyword⟩ := hkeyword
    rw [Kind.ofWord_eq hkeyword]
    simpa using IsLexeme.keyword hkeyword
  · have hfree := not_exists.1 hkeyword
    rw [Kind.ofWord_free hfree]
    exact .identifier h hfree

theorem not_mem_markCharacters (h : isDigit c = true ∨ isLetter c = true) :
    c ∉ markCharacters := by
  have hall : markCharacters.all (fun c => isDigit c = false ∧ isLetter c = false) = true := by
    decide
  intro hc
  obtain ⟨hdigit, hletter⟩ := of_decide_eq_true (List.all_eq_true.1 hall c hc)
  rw [hdigit, hletter] at h
  rcases h with h | h <;> cases h

theorem digits_spec {d : Char} (hd : d ∈ digits) : isDigit d = true ∧ isLetter d = false := by
  have hall : digits.all (fun d => isDigit d = true ∧ isLetter d = false) = true := by decide
  exact of_decide_eq_true (List.all_eq_true.1 hall d hd)

theorem takeWhile_unquoted (h : '"' ∉ cs) (rest : List Char) :
    (cs ++ '"' :: rest).takeWhile (· != '"') = cs := by
  have hall : ∀ d ∈ cs, (d != '"') = true := fun d hd => by
    simpa using ne_of_mem_of_not_mem hd h
  rw [List.takeWhile_append_of_pos hall, List.takeWhile_cons_of_neg (by simp), List.append_nil]

theorem munch_string (h : '"' ∉ cs) (rest : List Char) :
    munch ('"' :: (cs ++ '"' :: rest)) = .token .string (cs.length + 2) := by
  rw [munch, takeWhile_unquoted h, if_pos (by simp)]

theorem munch_openString (h : '"' ∉ cs) :
    munch ('"' :: cs) = .bad .openString (cs.length + 1) := by
  have htake : cs.takeWhile (· != '"') = cs := List.takeWhile_eq_self_iff.2 fun d hd => by
    simpa using ne_of_mem_of_not_mem hd h
  rw [munch, htake, if_neg (Nat.lt_irrefl _)]

/-- What is taken for a token is a lexeme of its kind. -/
theorem isLexeme_munch (h : munch cs = .token kind n) (hcs : cs ≠ []) :
    IsLexeme kind (cs.take n) := by
  unfold munch at h
  split at h
  case h_1 => exact absurd rfl hcs
  case h_13 | h_25 | h_27 => cases h
  case h_28 cs =>
    change munch ('"' :: cs) = _ at h
    by_cases hquote : '"' ∈ cs
    · obtain ⟨body, rest, rfl, hbody⟩ := List.eq_append_cons_of_mem hquote
      rw [munch_string hbody] at h
      obtain ⟨rfl, rfl⟩ := Munch.token.inj h
      rw [List.take_succ_cons, List.take_length_add_append]
      exact .string hbody
    · rw [munch_openString hquote] at h
      cases h
  case h_29 c cs _ _ _ _ _ _ _ _ _ _ _ _ _ _ _ _ _ _ _ _ _ _ _ _ _ _ _ =>
    split at h
    next hdigit =>
      obtain ⟨rfl, rfl⟩ := Munch.token.inj h
      exact .number (isNumeral_take hdigit cs)
    · split at h
      next hletter =>
        obtain ⟨rfl, rfl⟩ := Munch.token.inj h
        exact isLexeme_ofWord (isWord_take hletter cs)
      · cases h
  all_goals
    obtain ⟨rfl, rfl⟩ := Munch.token.inj h
    exact .sign (by simp [Kind.signs])

/-- A sign of one character that is also the front of a longer one. -/
theorem munch_short {d : Char} {short long : Kind}
    (hshort : (∀ ds, rest = d :: ds → False) → munch (c :: rest) = .token short 1)
    (hlong : ∀ ds, munch (c :: d :: ds) = .token long 2) :
    ∃ k n, munch (c :: rest) = .token k n ∧ 1 ≤ n ∧ (n = 1 → k = short) := by
  by_cases hfollows : ∃ ds, rest = d :: ds
  · obtain ⟨ds, rfl⟩ := hfollows
    exact ⟨long, 2, hlong ds, Nat.le_succ 1, nofun⟩
  · exact ⟨short, 1, hshort (not_exists.1 hfollows), Nat.le_refl 1, fun _ => rfl⟩

theorem munch_sign (h : (lexeme, kind) ∈ Kind.signs) (hopen : ¬ OpensComment (lexeme ++ rest)) :
    ∃ k n, munch (lexeme ++ rest) = .token k n ∧ lexeme.length ≤ n ∧
      (n = lexeme.length → k = kind) := by
  have hslash (hs : ∀ ds, rest = '*' :: ds → False) : munch ('/' :: rest) = .token .slash 1 := by
    rw [munch]
    exact hs
  simp only [Kind.signs, List.mem_cons, Prod.mk.injEq] at h
  repeat' obtain ⟨rfl, rfl⟩ | h := h
  all_goals first
    | exact ⟨_, _, rfl, by decide, fun _ => rfl⟩
    | exact ⟨_, _, hslash fun ds hds => hopen ⟨ds, by rw [hds]; rfl⟩, by decide, fun _ => rfl⟩
    | exact munch_short (fun hs => by rw [munch]; exact hs) fun _ => rfl

/-- Text in front of which a lexeme stands is taken for a token, of the lexeme's kind if it ends
there too, and of a longer one if not. -/
theorem munch_of_isLexeme (h : IsLexeme kind lexeme) (hopen : ¬ OpensComment (lexeme ++ rest)) :
    ∃ k n, munch (lexeme ++ rest) = .token k n ∧ lexeme.length ≤ n ∧
      (n = lexeme.length → k = kind) := by
  have hword (h : IsWord lexeme) : ∃ k n, munch (lexeme ++ rest) = .token k n ∧
      lexeme.length ≤ n ∧ (n = lexeme.length → k = Kind.ofWord (String.ofList lexeme)) := by
    have hlength := h.length_le rest
    obtain ⟨c, ds, rfl, hc, -⟩ := h
    have hdigit : isDigit c = false := Bool.eq_false_iff.2 fun hd => by
      rw [(digits_spec (isDigit_mem hd)).2] at hc
      cases hc
    rw [List.cons_append] at hlength ⊢
    rw [munch_plain (not_mem_markCharacters (.inr hc)), if_neg (by simp [hdigit]), if_pos hc]
    refine ⟨_, _, rfl, hlength, fun hn => ?_⟩
    rw [hn, ← List.cons_append, List.take_left]
  cases h with
  | sign h => exact munch_sign h hopen
  | @string body hbody =>
    have hmunch := munch_string hbody rest
    exact ⟨.string, body.length + 2, by simpa using hmunch, by simp, fun _ => rfl⟩
  | number h =>
    have hlength := h.length_le rest
    obtain ⟨d, ds, rfl, hd⟩ := h.head
    have hdigit : isDigit d = true := (digits_spec hd).1
    rw [List.cons_append] at hlength ⊢
    rw [munch_plain (not_mem_markCharacters (.inl hdigit)), if_pos hdigit]
    exact ⟨_, _, rfl, hlength, fun _ => rfl⟩
  | @keyword word kind h =>
    have hkind := Kind.ofWord_eq h
    simpa [hkind] using hword (isWord_keyword h)
  | identifier h hfree =>
    have hkind := Kind.ofWord_free hfree
    simpa [hkind] using hword h

end Scriptlet

import Scriptlet.Proofs.Layout.Moved
import Scriptlet.Proofs.Scanning.Tokens

/-! Two texts with a newline between them. Nothing but a string or a comment that is left open runs
over the end of a line. -/
namespace Scriptlet

variable {cs ds : List Char}

theorem takeWhile_seam {p : Char → Bool} (hp : p '\n' = false) (cs ds : List Char) :
    (cs ++ '\n' :: ds).takeWhile p = cs.takeWhile p := by
  induction cs with
  | nil => simp [hp]
  | cons c cs ih => simp [List.takeWhile_cons, ih]

/-- What ends before the end of the text ends there also if the text goes on. -/
theorem takeWhile_append_of_lt {p : Char → Bool} (ds : List Char)
    (h : (cs.takeWhile p).length < cs.length) : (cs ++ ds).takeWhile p = cs.takeWhile p := by
  rw [List.takeWhile_append, if_neg (Nat.ne_of_lt h)]

theorem closing?_append {n : Nat} (h : closing? cs = some n) (ds : List Char) :
    closing? (cs ++ ds) = some n := by
  fun_induction closing? cs generalizing n with
  | case1 cs => exact h
  | case2 c cs hopen ih =>
    obtain ⟨k, hk, rfl⟩ := Option.map_eq_some_iff.1 h
    have hmore : closing? (c :: (cs ++ ds)) = (closing? (cs ++ ds)).map (· + 1) := by
      -- The closing mark does not lie across the end: what is closed holds both its characters.
      cases cs with
      | nil => cases hk
      | cons d cs =>
        rw [List.cons_append, closing?]
        rintro rest rfl heq
        obtain ⟨rfl, -⟩ := List.cons.inj heq
        exact hopen cs rfl rfl
    rw [List.cons_append, hmore, ih hk]
    rfl
  | case3 => cases h

/-- A comment that is left open takes all the rest of the text. -/
def OpensComment (cs : List Char) : Prop := ∃ rest, cs = '/' :: '*' :: rest

theorem gapLength_blank {c : Char} (hc : isBlank c = true) (cs : List Char) :
    gapLength (c :: cs) = 1 + gapLength cs := by
  have hslash : c ≠ '/' := by
    rintro rfl
    cases hc
  simp [gapLength, hc, hslash]

/-- No gap is here. -/
theorem gapLength_token {c : Char} (hblank : isBlank c = false)
    (hline : ∀ rest, ¬ (c = '/' ∧ cs = '/' :: rest))
    (hblock : ∀ rest, ¬ (c = '/' ∧ cs = '*' :: rest)) : gapLength (c :: cs) = 0 := by
  rw [gapLength]
  · simp [hblank]
  · exact fun rest hc hcs => hline rest ⟨hc, hcs⟩
  · exact fun rest hc hcs => hblock rest ⟨hc, hcs⟩

/-- What does not follow before the seam does not follow after it either. -/
theorem not_follows_seam {d : Char} (hd : d ≠ '\n') (h : ∀ rest, cs = d :: rest → False)
    (ds rest : List Char) : cs ++ '\n' :: ds = d :: rest → False := by
  intro heq
  cases cs with
  | nil => exact hd (List.cons.inj heq).1.symm
  | cons e es => exact h es (by rw [(List.cons.inj heq).1])

/-- How far a gap goes that starts with a comment, when it is known how far the rest of it goes. -/
theorem gapLength_seam_comment {a b : Char} {n : Nat} (hn : n ≤ cs.length) (ds : List Char)
    (hrest : ¬ OpensComment ((cs.drop n).drop (gapLength (cs.drop n))) →
      gapLength (cs.drop n ++ '\n' :: ds) =
        if (cs.drop n).drop (gapLength (cs.drop n)) = [] then
          (cs.drop n).length + 1 + gapLength ds
        else gapLength (cs.drop n))
    (hclosed : ¬ OpensComment ((a :: b :: cs).drop (2 + n + gapLength (cs.drop n)))) :
    2 + n + gapLength ((cs ++ '\n' :: ds).drop n) =
      if (a :: b :: cs).drop (2 + n + gapLength (cs.drop n)) = [] then
        (a :: b :: cs).length + 1 + gapLength ds
      else 2 + n + gapLength (cs.drop n) := by
  have hdrop : (a :: b :: cs).drop (2 + n + gapLength (cs.drop n)) =
      (cs.drop n).drop (gapLength (cs.drop n)) := by
    rw [List.drop_drop, Nat.add_assoc, Nat.add_comm 2]
    rfl
  rw [hdrop] at hclosed ⊢
  rw [List.drop_append_of_le_length hn, hrest hclosed]
  split
  · simp only [List.length_drop, List.length_cons]
    omega
  · rfl

/-- If a token stands before the seam, so does the end of the gap before it; else the gap goes on
after the seam. -/
theorem gapLength_seam (hclosed : ¬ OpensComment (cs.drop (gapLength cs))) (ds : List Char) :
    gapLength (cs ++ '\n' :: ds) =
      if cs.drop (gapLength cs) = [] then cs.length + 1 + gapLength ds else gapLength cs := by
  fun_induction gapLength cs with
  | case1 cs n ih =>
    have hn : n ≤ cs.length := length_takeWhile_le _ cs
    rw [List.cons_append, List.cons_append, gapLength, takeWhile_seam (by rfl)]
    exact gapLength_seam_comment hn ds ih hclosed
  | case2 cs n hclosing ih =>
    have hn : n ≤ cs.length := closing?_le hclosing
    rw [List.cons_append, List.cons_append, gapLength, closing?_append hclosing]
    exact gapLength_seam_comment hn ds ih hclosed
  | case3 cs hclosing => exact absurd ⟨cs, rfl⟩ hclosed
  | case4 c cs hline hblock hblank ih =>
    have hdrop : (c :: cs).drop (1 + gapLength cs) = cs.drop (gapLength cs) := by
      rw [Nat.add_comm]
      rfl
    rw [hdrop] at hclosed ⊢
    rw [List.cons_append, gapLength_blank hblank, ih hclosed]
    split
    · simp only [List.length_cons]
      omega
    · rfl
  | case5 c cs hline hblock hblank =>
    rw [if_neg (by simp), List.cons_append]
    exact gapLength_token (Bool.eq_false_iff.2 hblank)
      (fun rest ⟨hc, heq⟩ => not_follows_seam (by decide) (hline · hc) ds rest heq)
      (fun rest ⟨hc, heq⟩ => not_follows_seam (by decide) (hblock · hc) ds rest heq)
  | case6 =>
    rw [List.nil_append, gapLength_blank (by rfl)]
    simp

/-- The characters of marks, and the quote. -/
def markCharacters : List Char :=
  ['(', ')', '{', '}', ',', ';', ':', '?', '+', '-', '*', '/', '%', '!', '=', '<', '>', '&', '|',
    '"']

theorem munch_plain {c : Char} (hc : c ∉ markCharacters) (cs : List Char) :
    munch (c :: cs) = if isDigit c then .token .number (numberLength (c :: cs))
      else if isLetter c then
        .token (Kind.ofWord (String.ofList ((c :: cs).take (wordLength (c :: cs)))))
          (wordLength (c :: cs))
      else .bad (.unexpected c) 1 := by
  rw [munch]
  all_goals intros; subst_vars; exact hc (by decide)

theorem numberLength_seam (cs ds : List Char) :
    numberLength (cs ++ '\n' :: ds) = numberLength cs := by
  have hn : (cs.takeWhile isDigit).length ≤ cs.length := length_takeWhile_le isDigit cs
  unfold numberLength
  dsimp only
  rw [takeWhile_seam (by rfl), List.drop_append_of_le_length hn]
  cases cs.drop (cs.takeWhile isDigit).length with
  | nil => simp
  | cons c rest =>
    by_cases hc : c = '.'
    · subst hc
      cases rest with
      | nil => rfl
      | cons d rest =>
        have htail : (d :: (rest ++ '\n' :: ds)).takeWhile isDigit =
            (d :: rest).takeWhile isDigit := takeWhile_seam (by rfl) (d :: rest) ds
        simp only [List.cons_append, htail]
    · simp [hc]

theorem wordLength_seam (cs ds : List Char) : wordLength (cs ++ '\n' :: ds) = wordLength cs :=
  congrArg List.length (takeWhile_seam (by rfl) cs ds)

/-- A lexeme that is closed ends before the seam. -/
theorem munch_seam (hcs : cs ≠ []) (hstring : ∀ n, munch cs ≠ .bad .openString n)
    (hcomment : ∀ n, munch cs ≠ .bad .openComment n) (ds : List Char) :
    munch (cs ++ '\n' :: ds) = munch cs := by
  by_cases hplain : ∃ c ∉ markCharacters, ∃ rest, cs = c :: rest
  · obtain ⟨c, hc, rest, rfl⟩ := hplain
    have htake : (c :: rest ++ '\n' :: ds).take (wordLength (c :: rest)) =
        (c :: rest).take (wordLength (c :: rest)) :=
      List.take_append_of_le_length (wordLength_le (c :: rest))
    rw [List.cons_append, munch_plain hc, munch_plain hc, ← List.cons_append, numberLength_seam,
      wordLength_seam, htake]
  · fun_cases munch cs
    case case1 => exact absurd rfl hcs
    case case13 => exact absurd (by rfl) (hcomment _)
    case case14 | case17 | case19 | case21 | case23 | case25 | case27 =>
      rw [List.cons_append, munch]
      exact not_follows_seam (by decide) ‹_› ds
    case case28 rest _ hclosed =>
      rw [List.cons_append, munch, takeWhile_append_of_lt _ hclosed, List.length_append,
        if_pos (by omega)]
    case case29 rest _ hopen =>
      refine absurd ?_ (hstring (rest.takeWhile (· != '"')).length.succ)
      rw [munch, if_neg hopen]
    case case30 | case31 | case32 =>
      refine absurd ⟨_, ?_, _, rfl⟩ hplain
      simp only [markCharacters, List.mem_cons, List.not_mem_nil, or_false, not_or]
      repeat' apply And.intro
      all_goals assumption
    all_goals rfl

namespace Cursor

/-- The text with another one after it, on a line of its own. -/
def onto (c : Cursor) (ds : List Char) : Cursor := ⟨c.rest ++ '\n' :: ds, c.pos⟩

/-- The place past the end of the text. -/
def last (c : Cursor) : Position := c.pos.advance c.rest

/-- Where the text after it starts. -/
def newline (c : Cursor) (ds : List Char) : Cursor := ⟨ds, c.last.after '\n'⟩

variable (c : Cursor) (n : Nat) (ds : List Char)

theorem last_advance : (c.advance n).last = c.last := by
  unfold last advance
  rw [← Position.advance_append, List.take_append_drop]

theorem advance_onto (h : n ≤ c.rest.length) : (c.onto ds).advance n = (c.advance n).onto ds := by
  simp only [onto, advance, List.drop_append_of_le_length h, List.take_append_of_le_length h]

end Cursor

/-- The token is a string or a comment that is not closed. -/
def Token.Open (t : Token) : Prop :=
  t.kind = .error ∧ (t.lexeme = LexicalError.openString.message ∨
    t.lexeme = LexicalError.openComment.message)

namespace Cursor

variable {c : Cursor} {n : Nat}

theorem token_bad {cause : LexicalError} (h : munch c.rest = .bad cause n) :
    c.token = ⟨.error, cause.message, c.pos⟩ := by
  rw [token, h]

theorem token_open (h : OpensComment c.rest) : c.token.Open := by
  obtain ⟨rest, hrest⟩ := h
  have hmunch : munch c.rest = .bad .openComment (2 + rest.length) := by rw [hrest]; rfl
  rw [token_bad hmunch]
  exact ⟨rfl, .inr rfl⟩

theorem munch_onto (hrest : c.rest ≠ []) (h : ¬ c.token.Open) (ds : List Char) :
    munch (c.onto ds).rest = munch c.rest := by
  refine munch_seam hrest (fun n hn => h ?_) (fun n hn => h ?_) ds
  · rw [token_bad hn]
    exact ⟨rfl, .inl rfl⟩
  · rw [token_bad hn]
    exact ⟨rfl, .inr rfl⟩

theorem token_onto (hrest : c.rest ≠ []) (h : ¬ c.token.Open) (ds : List Char) :
    (c.onto ds).token = c.token := by
  have hlength := munch_length_le c.rest
  unfold token
  rw [munch_onto hrest h]
  cases hmunch : munch c.rest with
  | bad cause n => rfl
  | token kind n =>
    rw [hmunch] at hlength
    have htake : (c.onto ds).rest.take n = c.rest.take n := List.take_append_of_le_length hlength
    dsimp only
    rw [htake]
    rfl

theorem pastToken_onto (hrest : c.rest ≠ []) (h : ¬ c.token.Open) (ds : List Char) :
    (c.onto ds).pastToken = c.pastToken.onto ds := by
  unfold pastToken
  rw [munch_onto hrest h]
  exact advance_onto c _ ds (munch_length_le c.rest)

theorem gapLength_onto (h : ¬ c.skipGap.token.Open) (ds : List Char) :
    gapLength (c.onto ds).rest =
      if c.skipGap.rest = [] then c.rest.length + 1 + gapLength ds else gapLength c.rest :=
  gapLength_seam (fun hopen => h (token_open (c := c.skipGap) hopen)) ds

theorem skipGap_onto (hrest : c.skipGap.rest ≠ []) (h : ¬ c.skipGap.token.Open)
    (ds : List Char) : (c.onto ds).skipGap = c.skipGap.onto ds := by
  unfold skipGap
  rw [gapLength_onto h, if_neg hrest]
  exact advance_onto c _ ds (gapLength_le c.rest)

/-- Past the last token the gap goes on into the next text. -/
theorem skipGap_through (hrest : c.skipGap.rest = []) (ds : List Char) :
    (c.onto ds).skipGap = (c.newline ds).skipGap := by
  have hopen : ¬ c.skipGap.token.Open := by
    rw [token_end hrest]
    exact fun h => nomatch h.1
  have hsplit : (c.onto ds).rest = (c.rest ++ ['\n']) ++ ds := by simp [onto]
  have hlength : c.rest.length + 1 + gapLength ds = (c.rest ++ ['\n']).length + gapLength ds := by
    simp
  have hpos : c.last.after '\n' = c.pos.advance (c.rest ++ ['\n']) := by
    rw [Position.advance_append]
    rfl
  unfold skipGap
  rw [gapLength_onto hopen, if_pos hrest, hlength]
  simp only [advance, newline, hsplit, hpos, List.drop_length_add_append,
    List.take_length_add_append, Position.advance_append]
  rfl

theorem tokens_congr {c c' : Cursor} (h : c.skipGap = c'.skipGap) : c.tokens = c'.tokens := by
  rw [tokens.eq_def c, tokens.eq_def c', h]

/-- The tokens of a text that goes on after a newline: its own, without the end, and those of the
rest. -/
theorem tokens_onto (h : ∀ t ∈ c.tokens, ¬ t.Open) (ds : List Char) :
    (c.onto ds).tokens = c.tokens.dropLast ++ (c.newline ds).tokens := by
  fun_induction tokens c with
  | case1 c hend => exact tokens_congr (skipGap_through hend ds)
  | case2 c hmore ih =>
    have hopen : ¬ c.skipGap.token.Open := h _ List.mem_cons_self
    have hrest := ih fun t ht => h t (List.mem_cons_of_mem _ ht)
    have hskip := skipGap_onto hmore hopen ds
    have hnewline : c.skipGap.pastToken.newline ds = c.newline ds := by
      rw [newline, pastToken, last_advance, skipGap, last_advance, newline]
    have hne : c.skipGap.pastToken.tokens ≠ [] := by
      obtain ⟨ts, eof, htokens, -⟩ := c.skipGap.pastToken.tokens_end
      simp [htokens]
    have hmore' : (c.onto ds).skipGap.rest ≠ [] := by
      rw [hskip]
      simp [onto]
    rw [tokens, if_neg hmore', hskip, token_onto hmore hopen, pastToken_onto hmore hopen, hrest,
      hnewline, List.dropLast_cons_of_ne_nil hne]
    rfl

end Cursor

/-- Every token so many lines further down. -/
def Layout.down (k : Nat) : Layout := fun t => ⟨t.pos.line + k, t.pos.column⟩

def Position.down (k : Nat) (p : Position) : Position := ⟨p.line + k, p.column⟩

namespace Position

variable (k : Nat) (p : Position)

theorem after_down (c : Char) : (p.down k).after c = (p.after c).down k := by
  unfold after down
  split
  · rw [Nat.add_right_comm]
  · rfl

theorem advance_down (cs : List Char) : (p.down k).advance cs = (p.advance cs).down k := by
  induction cs generalizing p with
  | nil => rfl
  | cons c cs ih =>
    change ((p.down k).after c).advance cs = _
    rw [after_down, ih]
    rfl

theorem line_advance (cs : List Char) : (p.advance cs).line = p.line + cs.count '\n' := by
  induction cs generalizing p with
  | nil => rfl
  | cons c cs ih =>
    change ((p.after c).advance cs).line = _
    rw [ih, List.count_cons]
    unfold after
    split
    next hc =>
      subst hc
      simp [Nat.add_comm, Nat.add_left_comm]
    next hc => simp [hc]

theorem line_le_advance (cs : List Char) : p.line ≤ (p.advance cs).line := by
  rw [line_advance]
  exact Nat.le_add_right _ _

end Position

namespace Cursor

def down (k : Nat) (c : Cursor) : Cursor := ⟨c.rest, c.pos.down k⟩

variable (k : Nat) (c : Cursor)

theorem advance_down (n : Nat) : (c.down k).advance n = (c.advance n).down k := by
  simp only [advance, down, Position.advance_down]

theorem skipGap_down : (c.down k).skipGap = c.skipGap.down k := advance_down k c _

theorem pastToken_down : (c.down k).pastToken = c.pastToken.down k := advance_down k c _

theorem token_down : (c.down k).token = c.token.moved (.down k) := by
  unfold token
  simp only [down]
  cases munch c.rest <;> rfl

/-- Where a text starts shows in nothing but the lines. -/
theorem tokens_down : (c.down k).tokens = c.tokens.map (Token.moved (.down k)) := by
  fun_induction tokens c with
  | case1 c hend =>
    have hend' : (c.down k).skipGap.rest = [] := hend
    rw [tokens, if_pos hend', skipGap_down, token_down]
    rfl
  | case2 c hmore ih =>
    have hmore' : (c.down k).skipGap.rest ≠ [] := hmore
    rw [tokens, if_neg hmore', skipGap_down, token_down, pastToken_down, ih]
    rfl

theorem pos_token : c.token.pos = c.pos := by
  unfold token
  split <;> rfl

theorem line_skipGap : c.pos.line ≤ c.skipGap.pos.line := Position.line_le_advance _ _

variable {c}

/-- Tokens stand on the lines of their text. -/
theorem line_tokens {t : Token} (ht : t ∈ c.tokens) :
    c.pos.line ≤ t.pos.line ∧ t.pos.line ≤ c.last.line := by
  fun_induction tokens c with
  | case1 c hend =>
    obtain rfl := List.mem_singleton.1 ht
    rw [pos_token]
    refine ⟨c.line_skipGap, ?_⟩
    rw [← c.last_advance]
    exact Position.line_le_advance c.skipGap.pos c.skipGap.rest
  | case2 c hmore ih =>
    rcases List.mem_cons.1 ht with rfl | ht
    · rw [pos_token]
      refine ⟨c.line_skipGap, ?_⟩
      rw [← c.last_advance]
      exact Position.line_le_advance c.skipGap.pos c.skipGap.rest
    · obtain ⟨hfirst, hlast⟩ := ih ht
      have hpast : c.skipGap.pos.line ≤ c.skipGap.pastToken.pos.line :=
        Position.line_le_advance _ _
      rw [pastToken, last_advance, skipGap, last_advance] at hlast
      exact ⟨(c.line_skipGap.trans hpast).trans hfirst, hlast⟩

end Cursor

/-- How many lines a text takes that another one follows. -/
def lineCount (text : String) : Nat := text.toList.count '\n' + 1

theorem line_last (text : String) : (Cursor.ofText text).last.line = lineCount text := by
  rw [Cursor.last, Position.line_advance, Nat.add_comm]
  rfl

theorem scan_lines {text : String} {t : Token} (ht : t ∈ scan text) :
    1 ≤ t.pos.line ∧ t.pos.line ≤ lineCount text := by
  rw [← line_last]
  exact Cursor.line_tokens ht

/-- The tokens of two texts on top of each other are those of the upper text, without its end, and
those of the lower one, further down. -/
theorem scan_append {upper : String} (h : ∀ t ∈ scan upper, ¬ t.Open) (lower : String) :
    scan (upper ++ "\n" ++ lower) =
      (scan upper).dropLast ++ (scan lower).map (Token.moved (.down (lineCount upper))) := by
  have honto : Cursor.ofText (upper ++ "\n" ++ lower) =
      (Cursor.ofText upper).onto lower.toList := by
    simp [Cursor.ofText, Cursor.onto]
  have hnewline : (Cursor.ofText upper).newline lower.toList =
      (Cursor.ofText lower).down (lineCount upper) := by
    have hpos : (Cursor.ofText upper).last.after '\n' = Position.start.down (lineCount upper) := by
      rw [Position.after, if_pos rfl, line_last, Nat.add_comm]
      rfl
    rw [Cursor.newline, hpos]
    rfl
  unfold scan
  rw [honto, Cursor.tokens_onto h, hnewline, Cursor.tokens_down]

/-- Scanning is done line by line, so to speak: unless the upper text leaves a string or a comment
open, what stands below it changes none of its tokens, and what stands above a text changes nothing
but the lines of its tokens, by the newlines before it. -/
theorem scan_composes (upper lower : String)
    (h : ∀ t ∈ scan upper, t.kind = .error →
      t.lexeme ≠ "Unterminated string." ∧ t.lexeme ≠ "Unterminated block comment.") :
    ∃ ts eof, scan upper = ts ++ [eof] ∧ eof.kind = .eof ∧ (∀ t ∈ ts, t.kind ≠ .eof) ∧
      scan (upper ++ "\n" ++ lower) = ts ++ (scan lower).map fun t =>
        ⟨t.kind, t.lexeme, t.pos.line + (upper.toList.count '\n' + 1), t.pos.column⟩ := by
  have hclosed : ∀ t ∈ scan upper, ¬ t.Open := by
    rintro t ht ⟨hkind, hlexeme⟩
    obtain ⟨hstring, hcomment⟩ := h t ht hkind
    exact hlexeme.elim hstring hcomment
  obtain ⟨ts, eof, hscan, heof, hts⟩ := scan_end upper
  refine ⟨ts, eof, hscan, heof, hts, ?_⟩
  rw [scan_append hclosed, hscan, List.dropLast_concat]
  rfl

/-- The upper text ends in a line comment with a quote in it, after a number that a point follows
and an ampersand with a newline to either side; the lower one opens a comment. -/
theorem scan_composes_comment :
    let upper := "1.\n&\n& // \""
    let lower := "= /*"
    (∀ t ∈ scan upper, t.kind = .error →
      t.lexeme ≠ "Unterminated string." ∧ t.lexeme ≠ "Unterminated block comment.") ∧
    (scan upper).length = 5 ∧ ∃ ts eof, scan upper = ts ++ [eof] ∧
      scan (upper ++ "\n" ++ lower) = ts ++ [⟨.equal, "=", ⟨4, 1⟩⟩,
        ⟨.error, "Unterminated block comment.", ⟨4, 3⟩⟩, ⟨.eof, "", ⟨4, 5⟩⟩] := by
  intro upper lower
  have hclosed : ∀ t ∈ scan upper, t.kind = .error →
      t.lexeme ≠ "Unterminated string." ∧ t.lexeme ≠ "Unterminated block comment." := by
    decide +kernel
  have hlower : scan lower = [⟨.equal, "=", ⟨1, 1⟩⟩,
      ⟨.error, "Unterminated block comment.", ⟨1, 3⟩⟩, ⟨.eof, "", ⟨1, 5⟩⟩] := by decide +kernel
  have hlines : upper.toList.count '\n' = 2 := by decide +kernel
  obtain ⟨ts, eof, hscan, -, -, hboth⟩ := scan_composes upper lower hclosed
  rw [hlower, hlines] at hboth
  exact ⟨hclosed, by decide +kernel, ts, eof, hscan, hboth⟩

end Scriptlet

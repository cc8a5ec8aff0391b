import Mathlib.Data.List.TakeWhile
import Scriptlet.Scan
import Scriptlet.Numeral.Read

/-! What is true of every token of a text: the last one and no other is the end, and a number can
be read. -/
namespace Scriptlet

variable {c : Char} {cs : List Char}

theorem length_takeWhile_le (p : Char → Bool) (cs : List Char) :
    (cs.takeWhile p).length ≤ cs.length :=
  (List.takeWhile_prefix p).length_le

theorem closing?_le {n : Nat} (h : closing? cs = some n) : n ≤ cs.length := by
  fun_induction closing? cs generalizing n with
  | case1 cs =>
    obtain rfl := Option.some.inj h
    simp
  | case2 c cs _ ih =>
    obtain ⟨k, hk, rfl⟩ := Option.map_eq_some_iff.1 h
    simpa using ih hk
  | case3 => cases h

theorem gapLength_le (cs : List Char) : gapLength cs ≤ cs.length := by
  fun_induction gapLength cs with
  | case1 cs n ih =>
    have := length_takeWhile_le (· != '\n') cs
    simp only [List.length_drop, List.length_cons] at ih ⊢
    omega
  | case2 cs n hclosing ih =>
    have := closing?_le hclosing
    simp only [List.length_drop, List.length_cons] at ih ⊢
    omega
  | case3 | case5 | case6 => exact Nat.zero_le _
  | case4 c cs _ _ _ ih =>
    simp only [List.length_cons]
    omega

/-- What a number looks like: digits, and digits after a point. -/
inductive IsNumeral : List Char → Prop where
  | whole {ds : List Char} (hds : ds ≠ []) (hdigits : ∀ d ∈ ds, isDigit d = true) : IsNumeral ds
  | point {ds es : List Char} (hds : ds ≠ []) (hdigits : ∀ d ∈ ds, isDigit d = true)
    (hes : es ≠ []) (hfraction : ∀ d ∈ es, isDigit d = true) : IsNumeral (ds ++ '.' :: es)

theorem take_length_takeWhile (p : Char → Bool) (cs : List Char) :
    cs.take (cs.takeWhile p).length = cs.takeWhile p :=
  (List.prefix_iff_eq_take.1 (List.takeWhile_prefix p)).symm

/-- The number that a text with a digit in front starts with. -/
theorem numberLength_spec (h : isDigit c = true) (cs : List Char) :
    ∃ front back, c :: cs = front ++ back ∧ numberLength (c :: cs) = front.length ∧
      IsNumeral front := by
  let ds := (c :: cs).takeWhile isDigit
  have hds : ds ≠ [] := by simp [ds, h]
  have hdigits : ∀ d ∈ ds, isDigit d = true := fun _ => List.mem_takeWhile_imp
  have hsplit : c :: cs = ds ++ (c :: cs).drop ds.length := by
    conv => lhs; rw [← List.take_append_drop ds.length (c :: cs)]
    rw [take_length_takeWhile]
  unfold numberLength
  dsimp only
  split
  next d rest hrest =>
    let es := (d :: rest).takeWhile isDigit
    split
    next hd =>
      have hes : es ≠ [] := by simp [es, hd]
      have hfraction : ∀ d ∈ es, isDigit d = true := fun _ => List.mem_takeWhile_imp
      refine ⟨ds ++ '.' :: es, (d :: rest).dropWhile isDigit, ?_, ?_,
        .point hds hdigits hes hfraction⟩
      · rw [List.append_assoc, List.cons_append, List.takeWhile_append_dropWhile, ← hrest]
        exact hsplit
      · change ds.length + 1 + es.length = (ds ++ '.' :: es).length
        simp only [List.length_append, List.length_cons]
        omega
    · exact ⟨ds, _, hsplit, rfl, .whole hds hdigits⟩
  · exact ⟨ds, _, hsplit, rfl, .whole hds hdigits⟩

theorem numberLength_le (h : isDigit c = true) (cs : List Char) :
    numberLength (c :: cs) ≤ (c :: cs).length := by
  obtain ⟨front, back, hsplit, hlength, -⟩ := numberLength_spec h cs
  rw [hlength, hsplit, List.length_append]
  exact Nat.le_add_right _ _

theorem isNumeral_take (h : isDigit c = true) (cs : List Char) :
    IsNumeral ((c :: cs).take (numberLength (c :: cs))) := by
  obtain ⟨front, back, hsplit, hlength, hnumeral⟩ := numberLength_spec h cs
  rw [hlength, hsplit, List.take_left]
  exact hnumeral

theorem wordLength_le (cs : List Char) : wordLength cs ≤ cs.length :=
  length_takeWhile_le _ cs

/-- The kinds of the lexemes that are no names, words or literals. -/
def Kind.marks : List Kind :=
  [.leftParen, .rightParen, .leftBrace, .rightBrace, .comma, .semicolon, .colon, .question,
    .plus, .minus, .star, .slash, .percent, .bang, .bangEqual, .equal, .equalEqual,
    .less, .lessEqual, .greater, .greaterEqual, .and, .or]

/-- What can stand at the front of a text. -/
inductive Munched : List Char → Munch → Prop where
  | nothing : Munched [] (.token .eof 0)
  | mark {kind : Kind} {n : Nat} {cs : List Char} (hkind : kind ∈ Kind.marks)
    (hlength : n ≤ cs.length) : Munched cs (.token kind n)
  | string {cs : List Char} (hclosed : (cs.takeWhile (· != '"')).length < cs.length) :
    Munched ('"' :: cs) (.token .string ((cs.takeWhile (· != '"')).length + 2))
  | number {c : Char} {cs : List Char} (hc : isDigit c = true) :
    Munched (c :: cs) (.token .number (numberLength (c :: cs)))
  | word {c : Char} {cs : List Char} (hc : isLetter c = true) :
    Munched (c :: cs) (.token (Kind.ofWord (String.ofList ((c :: cs).take (wordLength (c :: cs)))))
      (wordLength (c :: cs)))
  | bad {cause : LexicalError} {n : Nat} {cs : List Char} (hlength : n ≤ cs.length) :
    Munched cs (.bad cause n)

theorem munched (cs : List Char) : Munched cs (munch cs) := by
  unfold munch
  split
  case h_1 => exact .nothing
  case h_13 => exact .bad (by simp only [List.length_cons]; omega)
  case h_25 | h_27 => exact .bad (by simp)
  case h_28 cs =>
    dsimp only
    split
    next hclosed => exact .string hclosed
    · exact .bad (Nat.succ_le_succ (length_takeWhile_le _ cs))
  case h_29 c cs _ _ _ _ _ _ _ _ _ _ _ _ _ _ _ _ _ _ _ _ _ _ _ _ _ _ _ =>
    split
    next hc => exact .number hc
    · split
      next hc => exact .word hc
      · exact .bad (by simp)
  all_goals exact .mark (by decide) (by simp)

theorem munch_length_le (cs : List Char) : (munch cs).length ≤ cs.length := by
  have h := munched cs
  generalize munch cs = m at h
  cases h with
  | nothing => exact Nat.le_refl _
  | mark hkind hlength => exact hlength
  | string hclosed => exact Nat.succ_le_succ hclosed
  | number hc => exact numberLength_le hc _
  | word hc => exact wordLength_le _
  | bad hlength => exact hlength

theorem Kind.ofWord_mem (word : String) :
    Kind.ofWord word ∈ .identifier :: Kind.keywords.map Prod.snd := by
  unfold Kind.ofWord
  cases h : Kind.keywords.lookup word with
  | none => exact List.mem_cons_self
  | some kind =>
    have hmem : (word, kind) ∈ Kind.keywords := by
      obtain ⟨l₁, l₂, hsplit, -⟩ := List.lookup_eq_some_iff.1 h
      simp [hsplit]
    exact List.mem_cons_of_mem _ (List.mem_map_of_mem hmem)

/-- Only the end of the text is an end, and only a number is one. -/
theorem munch_kind {kind : Kind} {n : Nat} (h : munch cs = .token kind n) (hcs : cs ≠ []) :
    kind ≠ .eof ∧ kind ≠ .error ∧ (kind = .number → IsNumeral (cs.take n)) := by
  have hspec := munched cs
  rw [h] at hspec
  cases hspec with
  | nothing => exact absurd rfl hcs
  | mark hkind =>
    have : ∀ k ∈ Kind.marks, k ≠ .eof ∧ k ≠ .error ∧ k ≠ .number := by decide
    obtain ⟨heof, herror, hnumber⟩ := this kind hkind
    exact ⟨heof, herror, fun he => absurd he hnumber⟩
  | string => exact ⟨nofun, nofun, nofun⟩
  | number hc => exact ⟨nofun, nofun, fun _ => isNumeral_take hc _⟩
  | word =>
    have : ∀ k ∈ .identifier :: Kind.keywords.map Prod.snd,
      k ≠ .eof ∧ k ≠ .error ∧ k ≠ .number := by decide
    obtain ⟨heof, herror, hnumber⟩ := this _ (Kind.ofWord_mem _)
    exact ⟨heof, herror, fun he => absurd he hnumber⟩

/-- The characters of numbers. -/
def digits : List Char := (List.range 10).map fun n => Char.ofNat ('0'.toNat + n)

theorem isDigit_mem (h : isDigit c = true) : c ∈ digits := by
  have hrange : '0'.toNat ≤ c.toNat ∧ c.toNat ≤ '9'.toNat := by
    simpa [isDigit, Char.le_def, UInt32.le_iff_toNat_le] using h
  have hzero : '0'.toNat + (c.toNat - '0'.toNat) = c.toNat := Nat.add_sub_cancel' hrange.1
  have hnine : '9'.toNat = '0'.toNat + 9 := rfl
  refine List.mem_map.2 ⟨c.toNat - '0'.toNat, List.mem_range.2 (by omega), ?_⟩
  rw [hzero]
  exact Char.ofNat_toNat c

theorem IsNumeral.head (h : IsNumeral cs) : ∃ d ds, cs = d :: ds ∧ d ∈ digits := by
  cases h with
  | whole hds hdigits =>
    obtain ⟨d, ds, rfl⟩ := List.exists_cons_of_ne_nil hds
    exact ⟨d, ds, rfl, isDigit_mem (hdigits d List.mem_cons_self)⟩
  | @point ds es hds hdigits =>
    obtain ⟨d, ds, rfl⟩ := List.exists_cons_of_ne_nil hds
    exact ⟨d, ds ++ '.' :: es, rfl, isDigit_mem (hdigits d List.mem_cons_self)⟩

theorem IsNumeral.mem (h : IsNumeral cs) : ∀ d ∈ cs, d ∈ '.' :: digits := by
  intro d hd
  cases h with
  | whole hds hdigits => exact List.mem_cons_of_mem _ (isDigit_mem (hdigits d hd))
  | point hds hdigits hes hfraction =>
    rcases List.mem_append.1 hd with hd | hd
    · exact List.mem_cons_of_mem _ (isDigit_mem (hdigits d hd))
    · rcases List.mem_cons.1 hd with rfl | hd
      · exact List.mem_cons_self
      · exact List.mem_cons_of_mem _ (isDigit_mem (hfraction d hd))

theorem trim_of_plain (h : ∀ d ∈ cs, Text.isNarrowBlank d = false) : Text.trim cs = cs := by
  have hkeep {ds : List Char} (h : ∀ d ∈ ds, Text.isNarrowBlank d = false) :
      ds.dropWhile Text.isNarrowBlank = ds := by
    cases ds with
    | nil => rfl
    | cons d ds => simp [h d List.mem_cons_self]
  unfold Text.trim
  rw [hkeep h, hkeep fun d hd => h d (List.mem_reverse.1 hd), List.reverse_reverse]

theorem joinDigits?_of_plain (before : Char) (h : ∀ d ∈ cs, d ≠ '_') :
    joinDigits? before cs = some cs := by
  induction cs generalizing before with
  | nil => rfl
  | cons d ds ih =>
    have hd := h d List.mem_cons_self
    have hds := ih d fun e he => h e (List.mem_cons_of_mem _ he)
    simp [joinDigits?, hd, hds]

theorem IsNumeral.decimal? (h : IsNumeral cs) : (decimal? cs).isSome = true := by
  have hall {ds : List Char} (h : ∀ d ∈ ds, isDigit d = true) :
      ds.takeWhile isDigit = ds ∧ ds.dropWhile isDigit = [] :=
    ⟨List.takeWhile_eq_self_iff.2 h, List.dropWhile_eq_nil_iff.2 h⟩
  unfold Scriptlet.decimal?
  cases h with
  | whole hds hdigits =>
    obtain ⟨htake, hdrop⟩ := hall hdigits
    simp [htake, hdrop, hds, exponent?]
  | @point ds es hds hdigits hes hfraction =>
    have hpoint : isDigit '.' = false := by decide
    have htake : (ds ++ '.' :: es).takeWhile isDigit = ds := by
      rw [List.takeWhile_append_of_pos hdigits]
      simp [hpoint]
    have hdrop : (ds ++ '.' :: es).dropWhile isDigit = '.' :: es := by
      rw [List.dropWhile_append_of_pos hdigits]
      simp [hpoint]
    obtain ⟨htake', hdrop'⟩ := hall hfraction
    simp [htake, hdrop, htake', hdrop', hds, exponent?]

theorem IsNumeral.magnitude? (h : IsNumeral cs) : (magnitude? cs).isSome = true := by
  unfold Scriptlet.magnitude?
  split
  · rfl
  · rfl
  · rfl
  · exact h.decimal?

/-- Numerals can be read. -/
theorem IsNumeral.readNumber? (h : IsNumeral cs) :
    (readNumber? (String.ofList cs)).isSome = true := by
  have hplain : ('.' :: digits).all
      (fun d => Text.narrow d = d ∧ Text.isNarrowBlank d = false ∧ d ≠ '_') = true := by decide
  have hnarrow (d : Char) (hd : d ∈ cs) :
      Text.narrow d = d ∧ Text.isNarrowBlank d = false ∧ d ≠ '_' :=
    of_decide_eq_true (List.all_eq_true.1 hplain d (h.mem d hd))
  have hmap : cs.map Text.narrow = cs :=
    (List.map_congr_left fun d hd => (hnarrow d hd).1).trans (List.map_id cs)
  have hsign : digits.all (fun d => d ≠ '-' ∧ d ≠ '+') = true := by decide
  unfold Scriptlet.readNumber?
  rw [String.toList_ofList, hmap, trim_of_plain fun d hd => (hnarrow d hd).2.1,
    joinDigits?_of_plain _ fun d hd => (hnarrow d hd).2.2]
  obtain ⟨d, ds, rfl, hd⟩ := h.head
  obtain ⟨hminus, hplus⟩ := of_decide_eq_true (List.all_eq_true.1 hsign d hd)
  simp [hminus, hplus, h.magnitude?]

namespace Cursor

variable {s : Cursor}

theorem kind_token (h : s.rest ≠ []) :
    s.token.kind ≠ .eof ∧
      (s.token.kind = .number → (readNumber? s.token.lexeme).isSome = true) := by
  unfold token
  cases hmunch : munch s.rest with
  | bad cause n => exact ⟨nofun, nofun⟩
  | token kind n =>
    obtain ⟨heof, -, hnumber⟩ := munch_kind hmunch h
    exact ⟨heof, fun hkind => (hnumber hkind).readNumber?⟩

theorem token_end (h : s.rest = []) : s.token = ⟨.eof, "", s.pos⟩ := by
  unfold token
  rw [h]
  rfl

theorem tokens_end (s : Cursor) :
    ∃ ts eof, s.tokens = ts ++ [eof] ∧ eof.kind = .eof ∧ ∀ t ∈ ts, t.kind ≠ .eof := by
  fun_induction tokens s with
  | case1 s hend => exact ⟨[], _, rfl, by rw [token_end hend], nofun⟩
  | case2 s hmore ih =>
    obtain ⟨ts, eof, htokens, heof, hts⟩ := ih
    refine ⟨s.skipGap.token :: ts, eof, by rw [htokens]; rfl, heof, fun t ht => ?_⟩
    rcases List.mem_cons.1 ht with rfl | ht
    · exact (kind_token hmore).1
    · exact hts t ht

theorem number_token {t : Token} (ht : t ∈ s.tokens) (hkind : t.kind = .number) :
    (readNumber? t.lexeme).isSome = true := by
  fun_induction tokens s with
  | case1 s hend =>
    obtain rfl := List.mem_singleton.1 ht
    rw [token_end hend] at hkind
    cases hkind
  | case2 s hmore ih =>
    rcases List.mem_cons.1 ht with rfl | ht
    · exact (kind_token hmore).2 hkind
    · exact ih ht

end Cursor

/-- The last token of a text is its end, and no other token is. -/
theorem scan_end (text : String) :
    ∃ ts eof, scan text = ts ++ [eof] ∧ eof.kind = .eof ∧ ∀ t ∈ ts, t.kind ≠ .eof :=
  (Cursor.ofText text).tokens_end

/-- Every number of a text is one. -/
theorem scan_number {text : String} {t : Token} (ht : t ∈ scan text) (hkind : t.kind = .number) :
    (readNumber? t.lexeme).isSome = true :=
  Cursor.number_token ht hkind

end Scriptlet

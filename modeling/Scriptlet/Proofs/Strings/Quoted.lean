import Scriptlet.Proofs.Printing
import Scriptlet.Proofs.Scanning.Lexical
import Scriptlet.Proofs.Strings.Literals

/-! Text between quotes. The scanner takes a string up to the next quote, so that none is inside;
and text without a quote, put between two, is one string again. -/
namespace Scriptlet

open Grammar Parse

/-- The text can stand between quotes as it is. -/
def Unquoted (s : String) : Prop := '"' ∉ s.toList

variable {s : String} {text : String} {t : Token}

theorem Unquoted.append {a b : String} (ha : Unquoted a) (hb : Unquoted b) : Unquoted (a ++ b) := by
  unfold Unquoted at ha hb ⊢
  simp [ha, hb]

theorem IsLexeme.string_inv {cs : List Char} (h : IsLexeme .string cs) :
    ∃ body, cs = '"' :: (body ++ ['"']) ∧ '"' ∉ body := by
  generalize hkind : Kind.string = kind at h
  cases h with
  | @sign kind cs h =>
    have hall : ∀ p ∈ Kind.signs, p.2 ≠ .string := by decide
    exact absurd hkind.symm (hall _ h)
  | @string body hbody => exact ⟨body, rfl, hbody⟩
  | keyword h =>
    have hall : ∀ p ∈ Kind.keywords, p.2 ≠ .string := by decide
    exact absurd hkind.symm (hall _ h)
  | number | identifier => cases hkind

namespace Cursor

variable {c : Cursor}

theorem lexeme_token (hmore : c.rest ≠ []) (hkind : c.token.kind ≠ .error) :
    IsLexeme c.token.kind c.token.lexeme.toList := by
  unfold token at hkind ⊢
  cases hmunch : munch c.rest with
  | bad cause n =>
    rw [hmunch] at hkind
    exact absurd rfl hkind
  | token kind n => simpa using isLexeme_munch hmunch hmore

theorem string_token (ht : t ∈ c.tokens) (hkind : t.kind = .string) :
    IsLexeme .string t.lexeme.toList := by
  fun_induction tokens c with
  | case1 c hend =>
    obtain rfl := List.mem_singleton.1 ht
    rw [token_end hend] at hkind
    cases hkind
  | case2 c hmore ih =>
    rcases List.mem_cons.1 ht with rfl | ht
    · rw [← hkind]
      exact lexeme_token hmore (by simp [hkind])
    · exact ih ht

end Cursor

/-- No string of a text has a quote in it. -/
theorem unquoted_scan (text : String) : ∀ s ∈ Token.strings (scan text), Unquoted s := by
  intro s hs
  obtain ⟨t, ht, hstring⟩ := List.mem_filterMap.1 hs
  obtain ⟨hkind, hs⟩ := Option.ite_none_right_eq_some.1 hstring
  obtain rfl := Option.some.inj hs
  obtain ⟨body, hlexeme, hbody⟩ := (Cursor.string_token ht hkind).string_inv
  unfold Unquoted Parse.unquote
  rw [hlexeme]
  simpa using hbody

/-- Between quotes it is one string, which ends with the text. -/
theorem scan_quoted (h : Unquoted s) : ∃ pos, scan ("\"" ++ s ++ "\"") =
    [⟨.string, "\"" ++ s ++ "\"", .start⟩, ⟨.eof, "", pos⟩] := by
  let c := Cursor.ofText ("\"" ++ s ++ "\"")
  have hrest : c.rest = '"' :: (s.toList ++ ['"']) := by simp [c, Cursor.ofText]
  have hmunch : munch c.rest = .token .string (s.toList.length + 2) := by
    rw [hrest]
    exact munch_string h []
  have hskip : c.skipGap = c := by
    have hgap : gapLength c.rest = 0 := by
      rw [hrest]
      exact gapLength_token rfl (by simp) (by simp)
    rw [Cursor.skipGap, hgap]
    rfl
  have hlength : s.toList.length + 2 = c.rest.length := by simp [hrest]
  have htoken : c.token = ⟨.string, "\"" ++ s ++ "\"", .start⟩ := by
    have htext : String.ofList c.rest = "\"" ++ s ++ "\"" := String.ofList_toList
    unfold Cursor.token
    rw [hmunch, hlength]
    dsimp only
    rw [List.take_length, htext]
    rfl
  have hpast : c.pastToken.rest = [] := by
    rw [Cursor.pastToken, hmunch]
    simp [Cursor.advance, Munch.length, hlength]
  have hend : c.pastToken.tokens = [⟨.eof, "", c.pastToken.skipGap.pos⟩] := by
    have hrest : c.pastToken.skipGap.rest = [] := by
      simp [Cursor.skipGap, Cursor.advance, hpast]
    rw [Cursor.tokens, if_pos hrest, Cursor.token_end hrest]
  refine ⟨c.pastToken.skipGap.pos, ?_⟩
  change c.tokens = _
  rw [Cursor.tokens, hskip, if_neg (by simp [hrest]), htoken, hend]

/-- What the text says when it is read as an expression: the literal, and then the end. -/
theorem Parse.expr_quoted (s : String) (pos pos' : Position) {n : Nat}
    (hn : rulesPerToken + 11 ≤ n) :
    expr n operandRules .comma (reading [⟨.string, "\"" ++ s ++ "\"", pos⟩, ⟨.eof, "", pos'⟩]) =
      .ok (.literal (.string s)) (reading [⟨.eof, "", pos'⟩]) := by
  have hliteral : ExprSpelledBy (.literal (.string s)) [⟨.string, "\"" ++ s ++ "\"", pos⟩] := by
    have hprimary := Phrase.SpelledBy.string (t := ⟨.string, "\"" ++ s ++ "\"", pos⟩) rfl
    rw [unquote_quoted] at hprimary
    exact hprimary.loosen (by decide)
  have hend : Kind.eof ∉ Level.comma.followers := by decide
  exact (phrase_complete hliteral).expr hliteral hn (Nat.le_refl _) (by simp) hend

end Scriptlet

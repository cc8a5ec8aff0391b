import Scriptlet.Lexeme

/-! Scanning: a text becomes the list of its tokens, the last of them `eof`. -/
namespace Scriptlet

/-- What is left of a text, and where its first character stands. -/
structure Cursor where
  rest : List Char
  pos : Position
deriving Repr

namespace Cursor

def ofText (text : String) : Cursor := ⟨text.toList, .start⟩

def advance (c : Cursor) (n : Nat) : Cursor := ⟨c.rest.drop n, c.pos.advance (c.rest.take n)⟩

def skipGap (c : Cursor) : Cursor := c.advance (gapLength c.rest)

/-- The token that starts right here. -/
def token (c : Cursor) : Token :=
  match munch c.rest with
  | .token kind n => ⟨kind, String.ofList (c.rest.take n), c.pos⟩
  | .bad cause _ => ⟨.error, cause.message, c.pos⟩

def pastToken (c : Cursor) : Cursor := c.advance (munch c.rest).length

/-- One step of the scanner. At the end of the text it stays there. -/
def next (c : Cursor) : Token × Cursor := (c.skipGap.token, c.skipGap.pastToken)

theorem length_skipGap (c : Cursor) : c.skipGap.rest.length ≤ c.rest.length := by
  simp [skipGap, advance]

theorem length_pastToken {c : Cursor} (h : c.rest ≠ []) :
    c.pastToken.rest.length < c.rest.length := by
  have := munch_length_pos h
  have := List.length_pos_iff.2 h
  simp [pastToken, advance]
  omega

/-- The tokens through `eof`. -/
def tokens (c : Cursor) : List Token :=
  if c.skipGap.rest = [] then [c.skipGap.token]
  else c.skipGap.token :: tokens c.skipGap.pastToken
termination_by c.rest.length
decreasing_by exact Nat.lt_of_lt_of_le (length_pastToken ‹_›) c.length_skipGap

/-- The tokens of `n` steps. -/
def steps : Nat → Cursor → List Token
  | 0, _ => []
  | n + 1, c => c.next.1 :: steps n c.next.2

end Cursor

/-- The tokens of a program text. -/
def scan (text : String) : List Token := (Cursor.ofText text).tokens

end Scriptlet

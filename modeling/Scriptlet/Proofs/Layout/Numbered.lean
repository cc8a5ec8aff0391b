import Scriptlet.Proofs.Layout.Parsing

/-! A list of tokens in any layout. Where their lines number them, no two of them stand in the same
place. -/
namespace Scriptlet

/-- The tokens, each at the position that the layout gives to its index. -/
def laidOut (layout : Nat → Position) (tokens : List Token) : List Token :=
  tokens.mapIdx fun i t => { t with pos := layout i }

/-- Each token in the line of its index. -/
def numbered (tokens : List Token) : List Token := laidOut (fun i => ⟨i, 0⟩) tokens

variable {tokens : List Token}

theorem getElem?_numbered {i : Nat} {t : Token} (h : (numbered tokens)[i]? = some t) :
    t.pos.line = i ∧ ∃ t', tokens[i]? = some t' ∧ t'.kind = t.kind ∧ t'.lexeme = t.lexeme := by
  rw [numbered, laidOut, List.getElem?_mapIdx] at h
  obtain ⟨t', ht', rfl⟩ := Option.map_eq_some_iff.1 h
  exact ⟨rfl, t', ht', rfl, rfl⟩

theorem laidOut_eq_moved (layout : Nat → Position) (tokens : List Token) :
    laidOut layout tokens =
      (numbered tokens).map (Token.moved fun t => layout t.pos.line) := by
  refine List.ext_getElem? fun i => ?_
  simp [numbered, laidOut, Function.comp_def, Token.moved]

theorem lines_numbered (tokens : List Token) :
    (numbered tokens).map (·.pos.line) = List.range tokens.length := by
  refine List.ext_getElem? fun i => ?_
  by_cases hi : i < tokens.length <;> simp [numbered, laidOut, hi]

/-- Each token where it is in the list. -/
def whereabouts (tokens : List Token) : Layout := fun t => (tokens[t.pos.line]?.getD default).pos

theorem moved_numbered (tokens : List Token) :
    (numbered tokens).map (Token.moved (whereabouts tokens)) = tokens := by
  refine List.ext_getElem? fun i => ?_
  cases hi : tokens[i]? <;> simp [numbered, laidOut, whereabouts, Token.moved, hi]

/-- A program without errors has a numbered form, of which it is a layout. -/
theorem parse_numbered {tokens : List Token} {program : List (Stmt Unit)}
    (h : parse room tokens = .ok ⟨program, []⟩) :
    ∃ placed, parse room (numbered tokens) = .ok ⟨placed, []⟩ ∧
      program = Stmt.movedAll (whereabouts tokens) placed := by
  rw [← moved_numbered tokens, parse_moved] at h
  cases hplaced : parse room (numbered tokens) with
  | error fault =>
    rw [hplaced] at h
    cases h
  | ok parsed =>
    obtain ⟨placed, reports⟩ := parsed
    rw [hplaced] at h
    obtain ⟨hprogram, hreports⟩ := Parsed.mk.inj (Except.ok.inj h)
    obtain rfl := List.map_eq_nil_iff.1 hreports
    exact ⟨placed, rfl, hprogram.symm⟩

end Scriptlet

import Scriptlet.Proofs.Parsing.Completeness
import Scriptlet.Proofs.Parsing.Resume

/-! What stands before and after a place where there may be an error: declarations without one are
read as in a program without errors, whatever was reported before and whatever comes after them. -/
namespace Scriptlet.Parse

open Grammar

variable {α β : Type} {n room : Nat} {s r : State} {t u : Token} {ts us vs : List Token}

theorem bind_eq_of_eq {p q : Parser α} {f : α → Parser β} (h : p s = q r) :
    (p >>= f) s = (q >>= f) r := by
  change Parser.bind p f s = Parser.bind q f r
  rw [Parser.bind, h, Parser.bind]

theorem recovering_eq_of_eq {inBlock : Bool} {p q : Parser α} (h : p s.calm = q r.calm) :
    recovering inBlock p s = recovering inBlock q r := by
  rw [recovering, h, recovering]

theorem reading_calm (ts : List Token) : (reading ts).calm = reading ts := by
  cases ts <;> rfl

/-- What is read through these tokens is read whatever comes after them. -/
theorem Elementary.reading_append {p : Parser α} (hp : Elementary p) {a : α} (hts : ts ≠ [])
    (hvs : vs ≠ []) (h : p (reading ts) = .ok a (reading vs)) (us : List Token) :
    p (reading (ts ++ us)) = .ok a (reading (vs ++ us)) := by
  have hmore {ts : List Token} (hne : ts ≠ []) :
      (reading ts).followedBy us = reading (ts ++ us) := by
    obtain ⟨t, ts, rfl⟩ := List.exists_cons_of_ne_nil hne
    rfl
  obtain heq | ⟨⟨r, hr⟩, -⟩ := hp.is_local us (reading ts)
  · rw [hmore hts, h] at heq
    rw [heq, ← hmore hvs]
    rfl
  · cases h.symm.trans hr

/-- The declarations before another one. -/
theorem items_before {c : Context} {ss : List (Stmt Unit)}
    (h : (Clause.list c.inLoop c.depth ss).SpelledBy ts) (hroom : Stmt.rulesAll ss ≤ c.room)
    (hu : u.kind ≠ .error) (helse : u.kind ≠ .kwElse) (hn : rulesPerToken * ts.length + 2 ≤ n)
    (f : List (Stmt Unit) → Parser α) :
    (items (ss.length + n) c >>= f) (reading (ts ++ u :: us)) =
      (items n c >>= fun rest => f (ss ++ rest)) (reading (u :: us)) := by
  induction ss generalizing ts f with
  | nil =>
    cases h
    simp
  | cons st ss ih =>
    cases h with
    | @cons _ _ _ _ ts ts' hst hss =>
      simp only [List.length_append, rulesPerToken] at hn
      obtain ⟨w, ws, hrest, hw, hwelse⟩ := list_next hss (show Proper [u] by simpa using hu) helse
      obtain ⟨hroomFirst, hroomOthers⟩ := Nat.max_le.1 hroom
      have hfirst := clause_complete hst (ss.length + n) c w ws rfl rfl hroomFirst
        (by simp only [rulesPerToken]; omega) hw hwelse
      rw [← hrest] at hfirst
      have hmore := ((elementaryStmt _).declaration c).reading_append (by simp) (by simp) hfirst us
      have hothers := ih hss hroomOthers (by simp only [rulesPerToken]; omega)
        fun rest => f (st :: rest)
      simp only [List.append_assoc, List.singleton_append] at hmore
      rw [List.append_assoc, List.length_cons, Nat.add_right_comm,
        bind_eq_of_eq (items_of_declaration hst), bind_assoc, bind_of_ok hmore]
      simpa using hothers

/-- A block of the top level. -/
theorem declaration_block (ht : t.kind = .leftBrace) (hu : u.kind ≠ .error) :
    declaration (n + 4) (.top room) (reading (t :: u :: us)) =
      recovering false (do
        let body ← items (n + 1) (Context.top room).deeper.block
        let _ ← expect .blockClose
        return .block body) (reading (u :: us)) := by
  have hadvance : advance (reading (t :: u :: us)) = .ok t (reading (u :: us)) := by
    simp [advance, reading, State.atEnd, State.pull, State.pullFrom, ht, hu]
  rw [declaration_succ]
  refine recovering_eq_of_eq ?_
  change unrecovered (n + 3) (.top room) (reading (t :: u :: us)) = _
  rw [unrecovered, bind_of_ok peek_reading]
  simp only [ht]
  rw [statement_succ]
  change form (n + 2) (Context.top room).deeper (reading (t :: u :: us)) = _
  rw [form, bind_of_ok peek_reading]
  simp only [ht]
  rw [bind_of_ok hadvance, blockStatement, block]
  simp only [bind_assoc, pure_bind]
  rfl

/-- A list of declarations ends at a brace or at the end, and is never given up. -/
theorem items_ends (n : Nat) (c : Context) (s : State) :
    (∃ ss r, items n c s = .ok ss r ∧
      (r.current.kind = .rightBrace ∨ r.current.kind = .eof)) ∨
    ∃ cause r, items n c s = .halt cause r := by
  induction n generalizing s with
  | zero => exact .inr ⟨_, s, rfl⟩
  | succ n ih =>
    by_cases hend : s.current.kind = .rightBrace ∨ s.current.kind = .eof
    · exact .inl ⟨[], s, items_of_end hend, hend⟩
    · obtain ⟨hbrace, heof⟩ := not_or.1 hend
      rw [items_of_more hbrace heof]
      cases hd : declaration n c s with
      | bad r => exact absurd hd (declaration_ne_bad n c s r)
      | halt cause r => exact .inr ⟨cause, r, by rw [bind_of_halt hd]⟩
      | ok first u =>
        rw [bind_of_ok hd]
        obtain ⟨rest, r, hr, hrend⟩ | ⟨cause, r, hr⟩ := ih u
        · exact .inl ⟨first.toList ++ rest, r, by rw [bind_of_ok hr]; rfl, hrend⟩
        · exact .inr ⟨cause, r, by rw [bind_of_halt hr]⟩

/-- A list of declarations is read the same in panic and after reports. -/
theorem items_from {c : Context} {ss : List (Stmt Unit)}
    (h : (Clause.list c.inLoop c.depth ss).SpelledBy ts) (hroom : Stmt.rulesAll ss ≤ c.room)
    (hs : s.stream = ts ++ u :: us)
    (hp : Proper (u :: us)) (hu : u.kind = .rightBrace)
    (hn : rulesPerToken * ts.length + 4 ≤ n) :
    ∃ r, items n c s = .ok ss r ∧ r.stream = u :: us := by
  obtain ⟨n, rfl⟩ : ∃ k, n = k + 2 := ⟨n - 2, by omega⟩
  have hclean := clause_complete h (n + 2) c u us rfl rfl hroom (by omega) hp hu
  have hpast : s.calm = (reading s.stream).withPast s.reports := by
    simp [State.calm, State.withPast, State.stream, reading]
  have hcalm := ((elementaryStmt (n + 2)).items c).transport
    (State.withPast_transport s.reports) (reading s.stream)
  rw [← hpast, hs, hclean] at hcalm
  cases h with
  | nil =>
    obtain ⟨hcurrent, -⟩ := List.cons.inj hs
    exact ⟨s, items_of_end (.inl (hcurrent ▸ hu)), hs⟩
  | cons hst hss =>
    obtain ⟨t, ts, rfl, ht⟩ := hst.starts
    obtain ⟨hcurrent, -⟩ := List.cons.inj hs
    have : ∀ k ∈ .kwVar :: .kwFunction :: Clause.openers, k ≠ .rightBrace ∧ k ≠ .eof := by decide
    obtain ⟨hbrace, heof⟩ := this _ (hcurrent ▸ ht)
    have hbegin : items (n + 2) c s = items (n + 2) c s.calm := by
      rw [items_of_more hbrace heof, items_of_more (s := s.calm) hbrace heof,
        bind_eq_of_eq (declaration_calm n c s).symm]
    exact ⟨_, hbegin.trans hcalm, rfl⟩

theorem pull_of_proper (hs : s.rest = ts) (hne : ts ≠ []) (hp : Proper ts) :
    ∃ r, s.pull = some r ∧ r.stream = ts := by
  obtain ⟨t, ts, rfl⟩ := List.exists_cons_of_ne_nil hne
  refine ⟨{ s with current := t, rest := ts }, ?_, rfl⟩
  rw [State.pull, hs, State.pullFrom, if_neg (proper_cons.1 hp).1]

theorem expect_of_kind {slot : Slot} (hk : s.current.kind = slot.kind) :
    expect slot s = advance s := by
  change (if s.current.kind == slot.kind then advance else fail (.expected slot)) s = _
  rw [if_pos (by simp [hk])]

theorem expect_passes {slot : Slot} (hk : s.current.kind = slot.kind) (hr : s.pull = some r) :
    expect slot s = .ok s.current r := by
  have hend : s.atEnd = false := by simp [State.atEnd, hk, slot_kind_ne_eof]
  rw [expect_of_kind hk, advance, hend, hr]
  rfl

theorem expect_fails {slot : Slot} (hk : s.current.kind ≠ slot.kind) :
    expect slot s = .bad (s.report s.current (.expected slot)) := by
  change (if s.current.kind == slot.kind then advance else fail (.expected slot)) s = _
  rw [if_neg (by simp [hk])]
  rfl

end Scriptlet.Parse

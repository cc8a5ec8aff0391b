import Scriptlet.Proofs.Parsing.Progress

/-! How deep tokens are in braces, and what a parser closes: a parser is rising if it closes no
brace but those that it has opened itself. -/
namespace Scriptlet

/-- How many braces are open after a token of the kind, when so many were before; nothing, if it
closes one that was not open. -/
def Kind.nest : Kind → Nat → Option Nat
  | .leftBrace, d => some (d + 1)
  | .rightBrace, 0 => none
  | .rightBrace, d + 1 => some d
  | _, d => some d

def depthAfter (d : Nat) (ts : List Token) : Option Nat := ts.foldlM (fun d t => t.kind.nest d) d

/-- Each brace that is closed was open, and none is left open. -/
def Balanced (ts : List Token) : Prop := depthAfter 0 ts = some 0

instance (ts : List Token) : Decidable (Balanced ts) :=
  inferInstanceAs (Decidable (depthAfter 0 ts = some 0))

variable {d e : Nat} {t : Token} {ts us vs : List Token}

theorem Kind.nest_of_ne {k : Kind} (hleft : k ≠ .leftBrace) (hright : k ≠ .rightBrace) (d : Nat) :
    k.nest d = some d := by
  cases k <;> first | rfl | contradiction

theorem Kind.nest_add {k : Kind} (h : k.nest d = some e) (j : Nat) :
    k.nest (d + j) = some (e + j) := by
  by_cases hleft : k = .leftBrace
  · subst hleft
    obtain rfl := Option.some.inj h
    simp only [nest, Nat.add_right_comm]
  · by_cases hright : k = .rightBrace
    · subst hright
      cases d with
      | zero => cases h
      | succ d =>
        obtain rfl := Option.some.inj h
        simp only [nest, Nat.add_right_comm]
    · rw [nest_of_ne hleft hright] at h ⊢
      obtain rfl := Option.some.inj h
      rfl

theorem depthAfter_cons :
    depthAfter d (t :: ts) = (t.kind.nest d).bind fun d => depthAfter d ts := by
  simp [depthAfter, List.foldlM_cons]

theorem depthAfter_append :
    depthAfter d (ts ++ us) = (depthAfter d ts).bind fun d => depthAfter d us := by
  simp [depthAfter, List.foldlM_append]

theorem depthAfter_add (h : depthAfter d ts = some e) (j : Nat) :
    depthAfter (d + j) ts = some (e + j) := by
  induction ts generalizing d with
  | nil => exact congrArg (fun d => some (d + j)) (Option.some.inj h)
  | cons t ts ih =>
    rw [depthAfter_cons] at h ⊢
    obtain ⟨d', hd', h⟩ := Option.bind_eq_some_iff.1 h
    rw [Kind.nest_add hd' j]
    exact ih h

/-- The brace after balanced tokens is the first one that was not open. -/
theorem Balanced.before_brace {right : Token} (hts : Balanced ts)
    (hright : right.kind = .rightBrace) {ws : List Token} (h : ts ++ right :: us = vs ++ ws)
    (hvs : depthAfter 0 vs = some d) : ∃ xs, ts = vs ++ xs ∧ ws = xs ++ right :: us := by
  rcases List.append_eq_append_iff.1 h with ⟨xs, rfl, hxs⟩ | ⟨xs, hxs, hws⟩
  · cases xs with
    | nil => exact ⟨[], by simp, hxs.symm⟩
    | cons x xs =>
      obtain ⟨rfl, -⟩ := List.cons.inj hxs
      rw [depthAfter_append, hts, Option.bind_some, depthAfter_cons, hright] at hvs
      cases hvs
  · exact ⟨xs, hxs, hws⟩

theorem Balanced.at_brace {right : Token} (hts : Balanced ts) (hright : right.kind = .rightBrace)
    {ws : List Token} (h : ts ++ right :: us = vs ++ t :: ws) (ht : t.kind = .rightBrace)
    (hvs : depthAfter 0 vs = some 0) : ts = vs ∧ t :: ws = right :: us := by
  obtain ⟨xs, rfl, hxs⟩ := hts.before_brace hright h hvs
  cases xs with
  | nil => exact ⟨by simp, hxs⟩
  | cons x xs =>
    obtain ⟨rfl, -⟩ := List.cons.inj hxs
    rw [Balanced, depthAfter_append, hvs, Option.bind_some, depthAfter_cons, ht] at hts
    cases hts

theorem depthAfter_of_errors (h : ∀ t ∈ ts, t.kind = .error) (d : Nat) :
    depthAfter d ts = some d := by
  induction ts with
  | nil => rfl
  | cons t ts ih =>
    obtain ⟨ht, hts⟩ := List.forall_mem_cons.1 h
    rw [depthAfter_cons, ht]
    exact ih hts

/-- With so many braces open before the one list of tokens, one comes to the other, and then so many
are open. -/
def Leads (d e : Nat) (ts us : List Token) : Prop := ∃ vs, ts = vs ++ us ∧ depthAfter d vs = some e

namespace Leads

theorem refl (d : Nat) (ts : List Token) : Leads d d ts ts := ⟨[], rfl, rfl⟩

theorem trans {f : Nat} (h : Leads d e ts us) (h' : Leads e f us vs) : Leads d f ts vs := by
  obtain ⟨xs, rfl, hxs⟩ := h
  obtain ⟨ys, rfl, hys⟩ := h'
  exact ⟨xs ++ ys, by simp, by rw [depthAfter_append, hxs, Option.bind_some, hys]⟩

theorem cons (h : t.kind.nest d = some e) (ts : List Token) : Leads d e (t :: ts) ts :=
  ⟨[t], rfl, by rw [depthAfter_cons, h]; rfl⟩

theorem errors (h : ∀ t ∈ ts, t.kind = .error) (d : Nat) (us : List Token) :
    Leads d d (ts ++ us) us := ⟨ts, rfl, depthAfter_of_errors h d⟩

theorem suffix (h : Leads d e ts us) : us <:+ ts := by
  obtain ⟨vs, rfl, -⟩ := h
  exact List.suffix_append vs us

end Leads

/-- With so many braces open before the one list of tokens, one comes to the other, and then so many
at least are open. -/
def Climbs (d e : Nat) (ts us : List Token) : Prop :=
  ∃ vs j, ts = vs ++ us ∧ depthAfter d vs = some (e + j)

namespace Climbs

theorem refl (d : Nat) (ts : List Token) : Climbs d d ts ts := ⟨[], 0, rfl, rfl⟩

theorem mono {e' : Nat} (h : Climbs d e ts us) (he : e' ≤ e) : Climbs d e' ts us := by
  obtain ⟨vs, j, hts, hvs⟩ := h
  obtain ⟨i, rfl⟩ := Nat.exists_eq_add_of_le he
  exact ⟨vs, i + j, hts, by rw [hvs, Nat.add_assoc]⟩

theorem raise (h : Climbs d e ts us) (i : Nat) : Climbs (d + i) (e + i) ts us := by
  obtain ⟨vs, j, hts, hvs⟩ := h
  exact ⟨vs, j, hts, by rw [depthAfter_add hvs i, Nat.add_right_comm]⟩

theorem trans {f : Nat} (h : Climbs d e ts us) (h' : Climbs e f us vs) : Climbs d f ts vs := by
  obtain ⟨xs, j, rfl, hxs⟩ := h
  obtain ⟨ys, i, rfl, hys⟩ := h'
  refine ⟨xs ++ ys, i + j, by simp, ?_⟩
  rw [depthAfter_append, hxs, Option.bind_some, depthAfter_add hys j, Nat.add_assoc]

end Climbs

theorem Leads.climbs (h : Leads d e ts us) : Climbs d e ts us := by
  obtain ⟨vs, hts, hvs⟩ := h
  exact ⟨vs, 0, hts, hvs⟩

namespace Parse

variable {α β : Type} {f : Nat} {s r : State}

namespace State

/-- Nothing but error tokens is skipped before the next token. -/
theorem pullFrom_skips (h : s.pullFrom ts = some r) :
    ∃ errors, ts = errors ++ r.stream ∧ ∀ t ∈ errors, t.kind = .error := by
  induction ts generalizing s with
  | nil => cases h
  | cons t ts ih =>
    unfold pullFrom at h
    split at h
    next herror =>
      obtain ⟨errors, rfl, herrors⟩ := ih h
      exact ⟨t :: errors, rfl, List.forall_mem_cons.2 ⟨herror, herrors⟩⟩
    next =>
      obtain rfl := Option.some.inj h
      exact ⟨[], rfl, List.forall_mem_nil _⟩

theorem pullFrom_leads (d : Nat) (h : s.pullFrom ts = some r) : Leads d d ts r.stream := by
  obtain ⟨errors, rfl, herrors⟩ := pullFrom_skips h
  exact .errors herrors d r.stream

theorem pull_leads (hs : s.current.kind.nest d = some e) (h : s.pull = some r) :
    Leads d e s.stream r.stream :=
  (Leads.cons hs s.rest).trans (pullFrom_leads e h)

/-- Recovery counts the braces that it passes, and in a block it does not pass the one that closes
the block. -/
theorem nest_of_landing {inBlock : Bool} {k : Kind} {l : Landing} (h : landing inBlock k d = l)
    (hl : l ≠ .here) :
    (k = .rightBrace ∧ d = 0 ∧ inBlock = false ∧ l = .past) ∨
      ∃ e, k.nest d = some e ∧ (l = .past ∧ e = 0 ∨ l = .onward e) := by
  subst h
  by_cases hleft : k = .leftBrace
  · subst hleft
    exact .inr ⟨d + 1, rfl, .inr rfl⟩
  by_cases hright : k = .rightBrace
  · subst hright
    rcases d with _ | _ | d
    · cases inBlock with
      | true => exact absurd rfl hl
      | false => exact .inl ⟨rfl, rfl, rfl, rfl⟩
    · exact .inr ⟨0, rfl, .inl ⟨rfl, rfl⟩⟩
    · exact .inr ⟨d + 1, rfl, .inr rfl⟩
  · refine .inr ⟨d, Kind.nest_of_ne hleft hright d, ?_⟩
    unfold landing at hl ⊢
    split at hl
    · exact absurd rfl hl
    · exact absurd rfl hleft
    · exact absurd rfl hright
    · exact absurd rfl hright
    · exact absurd rfl hright
    · exact .inl ⟨rfl, rfl⟩
    -- no brace: what is skipped is left uncounted
    · split at hl
      · exact absurd rfl hl
      next hstart => exact .inr (if_neg hstart)
    · exact .inr rfl

/-- Recovery in a block stops before a brace that was open before. -/
theorem recover_climbs {depth : Nat} (h : s.recover true depth = some r) :
    Climbs depth 0 s.stream r.stream := by
  fun_induction recover s true depth with
  | case1 s depth hlanding =>
    obtain rfl := Option.some.inj h
    exact (Climbs.refl depth _).mono (Nat.zero_le _)
  | case2 s depth hlanding =>
    obtain ⟨-, -, hfalse, -⟩ | ⟨e, he, -⟩ := nest_of_landing hlanding (by simp)
    · cases hfalse
    · exact (pull_leads he h).climbs.mono (Nat.zero_le _)
  | case3 s depth depth' hlanding hnone => cases h
  | case4 s depth depth' hlanding u hu ih =>
    obtain ⟨-, -, hfalse, -⟩ | ⟨e, he, ⟨hpast, -⟩ | honward⟩ := nest_of_landing hlanding (by simp)
    · cases hfalse
    · cases hpast
    · obtain rfl := Landing.onward.inj honward
      exact (pull_leads he hu).climbs.trans (ih h)

end State

/-- The parser goes on or gives up with so many braces open at least, if so many were open. -/
def Result.Rises (d e : Nat) (ts : List Token) : Result α → Prop
  | .ok _ r | .bad r => Climbs d e ts r.stream
  | .halt _ _ => True

theorem Result.Rises.after {x : Result α} (h : x.Rises e f us) (hclimbs : Climbs d e ts us) :
    x.Rises d f ts := by
  cases x with
  | ok a r | bad r => exact hclimbs.trans h
  | halt => trivial

def Rising (d e : Nat) (p : Parser α) : Prop := ∀ s, (p s).Rises d e s.stream

theorem rises_bind {p : Parser α} {g : α → Parser β} (hp : (p s).Rises d e ts) (hle : f ≤ e)
    (hg : ∀ a r, p s = .ok a r → (g a r).Rises e f r.stream) : ((p >>= g) s).Rises d f ts := by
  change (Parser.bind p g s).Rises d f ts
  unfold Parser.bind
  cases hps : p s with
  | ok a r =>
    rw [hps] at hp
    dsimp only
    have hr := hg a r hps
    cases hgr : g a r with
    | ok b u | bad u =>
      rw [hgr] at hr
      exact Climbs.trans hp hr
    | halt => trivial
  | bad r =>
    rw [hps] at hp
    exact Climbs.mono hp hle
  | halt => trivial

theorem recovering_rises {p : Parser α} (hp : (p s.calm).Rises d 0 ts) :
    (recovering true p s).Rises d 0 ts := by
  unfold recovering
  cases hps : p s.calm with
  | ok a r =>
    rw [hps] at hp
    exact hp
  | halt => trivial
  | bad r =>
    rw [hps] at hp
    cases hr : r.recover true 0 with
    | none =>
      simp only [hr]
      trivial
    | some u =>
      simp only [hr]
      exact Climbs.trans hp (State.recover_climbs hr)

theorem advance_rises (h : s.current.kind.nest d = some e) : (advance s).Rises d e s.stream := by
  unfold advance
  cases hend : s.atEnd with
  | true =>
    have heof : s.current.kind = .eof := eq_of_beq hend
    rw [heof] at h
    obtain rfl := Option.some.inj h
    exact .refl d _
  | false =>
    cases hpull : s.pull with
    | none => trivial
    | some r => exact (State.pull_leads h hpull).climbs

theorem advance_bind_rises {g : Token → Parser β} (h : s.current.kind.nest d = some e)
    (hle : f ≤ e) (hg : ∀ t, Rising e f (g t)) : ((advance >>= g) s).Rises d f s.stream :=
  rises_bind (advance_rises h) hle fun t r _ => hg t r

theorem pass_rises {g : Token → Parser β} {k : Kind} (hk : s.current.kind = k)
    (hnest : k.nest 0 = some 0) (hg : ∀ t, Rising 0 0 (g t)) :
    ((advance >>= g) s).Rises 0 0 s.stream :=
  advance_bind_rises (hk ▸ hnest) (Nat.le_refl 0) hg

namespace Rising

theorem raise {p : Parser α} (hp : Rising d e p) (i : Nat) : Rising (d + i) (e + i) p := by
  intro s
  have hs := hp s
  cases hps : p s with
  | ok a r | bad r =>
    rw [hps] at hs
    exact Climbs.raise hs i
  | halt => trivial

theorem bind {p : Parser α} {g : α → Parser β} (hp : Rising d e p) (hle : f ≤ e)
    (hg : ∀ a, Rising e f (g a)) : Rising d f (p >>= g) := fun s =>
  rises_bind (hp s) hle fun a r _ => hg a r

/-- What comes after that ends no deeper and no higher. -/
theorem andThen {p : Parser α} {g : α → Parser β} (hp : Rising d e p)
    (hg : ∀ a, Rising e e (g a)) : Rising d e (p >>= g) := hp.bind (Nat.le_refl e) hg

theorem pure (a : α) : Rising d d (Pure.pure a : Parser α) := fun _ => .refl d _

theorem halt (cause : Halt) : Rising d e (halt cause : Parser α) := fun _ => trivial

theorem guardDepth (c : Context) : Rising d d (guardDepth c) := by
  unfold Parse.guardDepth
  split
  · exact halt _
  · exact pure ()

theorem report (t : Token) (cause : SyntaxError) : Rising d d (report t cause) :=
  fun _ => .refl d _

theorem complainIf (bad : Bool) {complaint : Parser Unit} (h : Rising d d complaint) :
    Rising d d (complainIf bad complaint) := by
  cases bad with
  | true => exact h
  | false => exact pure ()

theorem accept {kinds : List Kind} (h : ∀ k ∈ kinds, k.nest d = some d) :
    Rising d d (accept kinds) := by
  intro s
  unfold Parse.accept
  rw [peek_bind]
  split
  next hk => exact advance_bind_rises (h _ hk) (Nat.le_refl d) fun t => pure (some t)
  next => exact .refl d _

theorem expect {slot : Slot} (h : slot.kind.nest d = some e) (hle : e ≤ d) :
    Rising d e (expect slot) := by
  intro s
  change ((if s.current.kind == slot.kind then advance else Parse.fail (.expected slot)) s).Rises
    d e s.stream
  split
  next hk => exact advance_rises (eq_of_beq hk ▸ h)
  next => exact (Climbs.refl d _).mono hle

theorem after {slot : Slot} (h : slot.kind.nest 0 = some 0) {g : Token → Parser β}
    (hg : ∀ t, Rising 0 0 (g t)) : Rising 0 0 (Parse.expect slot >>= g) :=
  (expect h (Nat.le_refl 0)).andThen hg

/-- What stands in braces closes the brace that opens it. -/
theorem enclosed {slot : Slot} (h : slot.kind = .leftBrace) {g : Token → Parser β}
    (hg : ∀ t, Rising 1 0 (g t)) : Rising 0 0 (Parse.expect slot >>= g) := by
  intro s
  change (((if s.current.kind == slot.kind then advance else Parse.fail (.expected slot)) >>= g)
    s).Rises 0 0 s.stream
  split
  next hk =>
    have hopen : s.current.kind.nest 0 = some 1 := by rw [eq_of_beq hk, h]; rfl
    exact advance_bind_rises hopen (Nat.zero_le 1) hg
  next => exact Climbs.refl 0 _

theorem recovering {p : Parser α} (hp : Rising 0 0 p) : Rising 0 0 (recovering true p) :=
  fun s => recovering_rises (hp s.calm)

end Rising

end Parse
end Scriptlet

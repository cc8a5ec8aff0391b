import Scriptlet.Proofs.Parsing.Reports

/-! What the elementary steps of a parser read, when nothing was reported by their end. Reports
are never taken back, so nothing was reported before either, and no error token was skipped. -/
namespace Scriptlet.Parse

variable {α β : Type} {s r : State} {ts us : List Token}

/-- The tokens still to be passed, the current one first. -/
def State.stream (s : State) : List Token := s.current :: s.rest

/-- Between the two states just these tokens were passed. -/
structure Reads (s : State) (ts : List Token) (r : State) : Prop where
  clean : s.reports = []
  stream : s.stream = ts ++ r.stream

theorem Reads.refl (h : s.reports = []) : Reads s [] s := ⟨h, rfl⟩

theorem Reads.trans {u : State} (h : Reads s ts u) (h' : Reads u us r) : Reads s (ts ++ us) r :=
  ⟨h.clean, by rw [h.stream, h'.stream, List.append_assoc]⟩

theorem Reads.current {t : Token} (h : Reads s (t :: ts) r) : s.current = t := by
  have := h.stream
  simp only [State.stream, List.cons_append, List.cons.injEq] at this
  exact this.1

theorem bind_eq_ok {p : Parser α} {f : α → Parser β} {b : β} :
    (p >>= f) s = .ok b r ↔ ∃ a u, p s = .ok a u ∧ f a u = .ok b r := by
  change Parser.bind p f s = .ok b r ↔ _
  unfold Parser.bind
  cases p s <;> simp [and_assoc]

theorem map_eq_ok {p : Parser α} {f : α → β} {b : β} :
    (f <$> p) s = .ok b r ↔ ∃ a, p s = .ok a r ∧ f a = b := by
  rw [map_eq_pure_bind, bind_eq_ok]
  constructor
  · rintro ⟨a, u, ha, hb⟩
    obtain ⟨rfl, rfl⟩ := Result.ok.inj hb
    exact ⟨a, ha, rfl⟩
  · rintro ⟨a, ha, rfl⟩
    exact ⟨a, r, ha, rfl⟩

@[simp] theorem pure_eq_ok {a b : α} : (pure a : Parser α) s = .ok b r ↔ a = b ∧ s = r := by
  change Result.ok a s = .ok b r ↔ _
  simp

/-- The values of the parser are like this. -/
def Gives (p : Parser α) (P : α → Prop) : Prop := ∀ s a r, p s = .ok a r → P a

namespace Gives

variable {p : Parser α} {f : α → Parser β} {P : α → Prop} {Q : β → Prop}

theorem pure {a : α} (h : P a) : Gives (Pure.pure a) P := by
  intro s a' r hresult
  obtain ⟨rfl, -⟩ := pure_eq_ok.1 hresult
  exact h

theorem bind (hp : Gives p P) (hf : ∀ a, P a → Gives (f a) Q) : Gives (p >>= f) Q := by
  intro s b r hresult
  obtain ⟨a, u, ha, hb⟩ := bind_eq_ok.1 hresult
  exact hf a (hp s a u ha) u b r hb

/-- Whatever the first value is. -/
theorem after (hf : ∀ a, Gives (f a) Q) : Gives (p >>= f) Q :=
  bind (P := fun _ => True) (fun _ _ _ _ => trivial) fun a _ => hf a

theorem halt {cause : Halt} : Gives (halt cause) P := fun _ _ _ h => by cases h

theorem map {g : α → β} (h : Gives p fun a => Q (g a)) : Gives (g <$> p) Q := by
  intro s b r hresult
  obtain ⟨a, ha, rfl⟩ := map_eq_ok.1 hresult
  exact h s a r ha

theorem mono {P' : α → Prop} (h : Gives p P) (hP : ∀ a, P a → P' a) : Gives p P' :=
  fun s a r hresult => hP a (h s a r hresult)

theorem unlessAt {stop : Kind} {absent : α} (habsent : P absent) (h : Gives p P) :
    Gives (unlessAt stop absent p) P := by
  refine after fun here => ?_
  split
  · exact pure habsent
  · exact h

/-- What had to be given up is no value. -/
theorem recovering (h : Gives p P) (inBlock : Bool) :
    Gives (recovering inBlock p) fun d => ∀ a ∈ d, P a := by
  intro s d r hresult a ha
  unfold Parse.recovering at hresult
  cases hp : p s.calm with
  | ok a' u =>
    rw [hp] at hresult
    obtain ⟨rfl, -⟩ := Result.ok.inj hresult
    obtain rfl := Option.some.inj ha
    exact h _ _ _ hp
  | bad u =>
    rw [hp] at hresult
    dsimp only at hresult
    split at hresult
    · obtain ⟨rfl, -⟩ := Result.ok.inj hresult
      cases ha
    · cases hresult
  | halt cause u =>
    rw [hp] at hresult
    cases hresult

end Gives

theorem peek_bind_eq_ok {f : Kind → Parser β} {b : β} :
    (peek >>= f) s = .ok b r ↔ f s.current.kind s = .ok b r := Iff.rfl

theorem check_bind_eq_ok {kind : Kind} {f : Bool → Parser β} {b : β} :
    (check kind >>= f) s = .ok b r ↔ f (s.current.kind == kind) s = .ok b r := Iff.rfl

theorem pullFrom_clean (h : s.pullFrom ts = some r) (hr : r.reports = []) :
    s.reports = [] ∧ ts = r.stream := by
  cases ts with
  | nil => simp [State.pullFrom] at h
  | cons t ts =>
    unfold State.pullFrom at h
    split at h
    · have hreports := State.reports_pullFrom h
      simp [hr, State.report] at hreports
    · obtain rfl := Option.some.inj h
      exact ⟨hr, rfl⟩

theorem advance_eq_current {t : Token} (h : advance s = .ok t r) : t = s.current := by
  unfold advance at h
  split at h
  · exact (Result.ok.inj h).1.symm
  · cases hpull : s.pull with
    | none => simp [hpull] at h
    | some u =>
      simp only [hpull, Result.ok.injEq] at h
      exact h.1.symm

theorem advance_reads {t : Token} (h : advance s = .ok t r) (hs : s.current.kind ≠ .eof)
    (hr : r.reports = []) : Reads s [t] r := by
  have hend : s.atEnd = false := by simpa [State.atEnd] using hs
  unfold advance at h
  cases hpull : s.pull with
  | none => simp [hend, hpull] at h
  | some u =>
    simp only [hend, hpull, Bool.false_eq_true, if_false, Result.ok.injEq] at h
    obtain ⟨rfl, rfl⟩ := h
    obtain ⟨hclean, hrest⟩ := pullFrom_clean hpull hr
    exact ⟨hclean, congrArg (s.current :: ·) hrest⟩

theorem accept_some_reads {kinds : List Kind} {t : Token} (h : accept kinds s = .ok (some t) r)
    (heof : .eof ∉ kinds) (hr : r.reports = []) : t.kind ∈ kinds ∧ Reads s [t] r := by
  unfold accept at h
  rw [peek_bind_eq_ok] at h
  split at h
  next hk =>
    obtain ⟨u, v, hu, huv⟩ := bind_eq_ok.1 h
    obtain ⟨hut, rfl⟩ := pure_eq_ok.1 huv
    obtain rfl := Option.some.inj hut
    have hread := advance_reads hu (fun he => heof (he ▸ hk)) hr
    exact ⟨hread.current ▸ hk, hread⟩
  next => simp at h

/-- What is accepted is of one of the kinds. -/
theorem gives_accept (kinds : List Kind) :
    Gives (accept kinds) fun o => ∀ t ∈ o, t.kind ∈ kinds := by
  intro s o r h t ht
  obtain rfl := Option.mem_def.1 ht
  unfold accept at h
  rw [peek_bind_eq_ok] at h
  split at h
  next hk =>
    obtain ⟨u, v, hu, huv⟩ := bind_eq_ok.1 h
    obtain ⟨hut, -⟩ := pure_eq_ok.1 huv
    obtain rfl := Option.some.inj hut
    exact advance_eq_current hu ▸ hk
  next => simp at h

theorem accept_none {kinds : List Kind} (h : accept kinds s = .ok none r) :
    s.current.kind ∉ kinds ∧ s = r := by
  unfold accept at h
  rw [peek_bind_eq_ok] at h
  split at h
  next =>
    obtain ⟨u, v, -, huv⟩ := bind_eq_ok.1 h
    simp at huv
  next hk => exact ⟨hk, (pure_eq_ok.1 h).2⟩

theorem slot_kind_ne_eof (slot : Slot) : slot.kind ≠ .eof := by
  cases slot <;> simp [Slot.kind]

theorem expect_reads {slot : Slot} {t : Token} (h : expect slot s = .ok t r) (hr : r.reports = []) :
    t.kind = slot.kind ∧ Reads s [t] r := by
  unfold expect at h
  rw [check_bind_eq_ok] at h
  split at h
  next hk =>
    have hk : s.current.kind = slot.kind := eq_of_beq hk
    have hread := advance_reads h (hk ▸ slot_kind_ne_eof slot) hr
    exact ⟨hread.current ▸ hk, hread⟩
  next => simp [fail] at h

theorem complainIf_clean {bad : Bool} {complaint : Parser Unit}
    (hcomplaint : ∀ s r, complaint s = .ok () r → r.reports ≠ [])
    (h : complainIf bad complaint s = .ok () r) (hr : r.reports = []) : bad = false ∧ s = r := by
  cases bad with
  | true => exact absurd hr (hcomplaint s r h)
  | false => exact ⟨rfl, (pure_eq_ok.1 h).2⟩

theorem report_unclean {t : Token} {cause : SyntaxError} {s r : State}
    (h : report t cause s = .ok () r) : r.reports ≠ [] := by
  simp only [report, Result.ok.injEq] at h
  simp [← h.2, State.report]

theorem reportHere_unclean {cause : SyntaxError} {s r : State}
    (h : reportHere cause s = .ok () r) : r.reports ≠ [] := by
  simp only [reportHere, Result.ok.injEq] at h
  simp [← h.2, State.report]

/-- An absent part reads nothing; whoever comes next finds the token that stopped it. -/
theorem unlessAt_eq_ok {stop : Kind} {absent a : α} {p : Parser α}
    (h : unlessAt stop absent p s = .ok a r) : (a = absent ∧ s = r) ∨ p s = .ok a r := by
  unfold unlessAt at h
  rw [check_bind_eq_ok] at h
  split at h
  · exact .inl ⟨(pure_eq_ok.1 h).1.symm, (pure_eq_ok.1 h).2⟩
  · exact .inr h

/-- An end token that stands nowhere else stands at the end. -/
theorem eof_unique {ts us vs : List Token} {eof eof' : Token} (hts : ∀ t ∈ ts, t.kind ≠ .eof)
    (heof : eof'.kind = .eof) (h : ts ++ [eof] = us ++ eof' :: vs) : ts = us := by
  rcases List.append_eq_append_iff.1 h with ⟨ws, rfl, hws⟩ | ⟨ws, rfl, hws⟩
  · cases ws with
    | nil => simp
    | cons w ws => simp at hws
  · cases ws with
    | nil => simp
    | cons w ws =>
      obtain ⟨rfl, -⟩ := List.cons.inj hws
      exact absurd heof (hts _ (by simp))

end Scriptlet.Parse

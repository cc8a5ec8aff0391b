import Scriptlet.Proofs.Parsing.Plain
import Scriptlet.Proofs.Recovery.Depth

/-! No function of the grammar closes a brace that it has not opened, however it ends, as long as it
recovers from errors in blocks only. What follows the brace of a block closes just that one. -/
namespace Scriptlet.Parse

variable {α : Type} {n : Nat} {s : State}

/-- Below the statements there are no braces. -/
theorem Plain.rises {k : Option Kind} {p : Parser α} (hp : Plain k p)
    (hk : ∀ kind ∈ k, s.current.kind = kind) : (p s).Rises 0 0 s.stream := by
  induction hp generalizing s with
  | halt => trivial
  | pure | reportHere | fail => exact Climbs.refl 0 _
  | bind _ _ ihp ihf => exact rises_bind (ihp hk) (Nat.le_refl 0) fun a r _ => ihf a nofun
  | peek _ ih => exact ih s.current.kind (s := s) (by simp)
  | anywhere _ ih => exact ih nofun
  | advance hkind =>
    have hcurrent := hk _ rfl
    exact advance_rises (Kind.nest_of_ne (hcurrent ▸ hkind.1) (hcurrent ▸ hkind.2.1) 0)
  | @blaming _ _ p bad cause hkind _ _ ih =>
    have hcurrent := hk _ rfl
    refine advance_bind_rises (Kind.nest_of_ne (hcurrent ▸ hkind.1) (hcurrent ▸ hkind.2.1) 0)
      (Nat.le_refl 0) fun t r => rises_bind (ih nofun) (Nat.le_refl 0) fun a u _ => ?_
    exact (Rising.complainIf _ (.report _ _)).andThen (fun _ => .pure _) u

theorem Plain.rising {p : Parser α} (hp : Plain none p) : Rising 0 0 p := fun _ => hp.rises nofun

theorem Ended.rising {p : Parser α} (hp : Ended none p) : Rising 0 0 p := hp.plain.rising

/-- The grammar functions of statements with this much fuel. -/
structure RisingStmt (n : Nat) : Prop where
  declaration {c : Context} (h : c.inBlock = true) : Rising 0 0 (declaration n c)
  function (c : Context) : Rising 0 0 (function n c)
  statement (c : Context) : Rising 0 0 (statement n c)
  block (c : Context) : Rising 1 0 (block n c)
  items {c : Context} (h : c.inBlock = true) : Rising 0 0 (items n c)
  arms (c : Context) : Rising 0 0 (arms n c)

theorem rising_unrecovered (ih : RisingStmt n) (c : Context) :
    Rising 0 0 (unrecovered n c) := by
  intro s
  rw [unrecovered, peek_bind]
  generalize hk : s.current.kind = k
  split
  · exact pass_rises hk rfl fun _ => ih.function c
  · exact pass_rises hk rfl fun _ => (ended_varDeclaration n).rising
  · exact ih.statement c s

theorem rising_function (ih : RisingStmt n) (c : Context) :
    Rising 0 0 (function (n + 1) c) := by
  rw [function_succ]
  refine Rising.after rfl fun _ =>
    .after rfl fun _ =>
    (plain_parameterList n).rising.andThen fun _ =>
    .after rfl fun _ => .enclosed rfl fun _ => ?_
  exact (Rising.guardDepth _).bind (Nat.zero_le 1) fun _ => (ih.block _).andThen fun _ => .pure _

theorem rising_ifStatement (ih : RisingStmt n) (c : Context) :
    Rising 0 0 (ifStatement n c) := by
  refine (ended_parenthesized n (by decide) (by decide)).rising.andThen fun _ =>
    (ih.statement _).andThen fun _ => (Rising.accept (by decide)).andThen fun o => ?_
  cases o with
  | none => exact .pure _
  | some _ => exact (ih.statement _).andThen fun _ => .pure _

theorem rising_switchStatement (ih : RisingStmt n) (c : Context) :
    Rising 0 0 (switchStatement n c) :=
  (ended_parenthesized n (by decide) (by decide)).rising.andThen fun _ => .enclosed rfl fun _ =>
    ((ih.arms c).raise 1).bind (Nat.zero_le _) fun _ =>
    (Rising.expect rfl (Nat.zero_le 1)).andThen fun _ => .pure _

theorem rising_form (ih : RisingStmt n) (c : Context) : Rising 0 0 (form n c) := by
  intro s
  rw [form, peek_bind]
  generalize hk : s.current.kind = k
  split
  · exact pass_rises hk rfl fun _ => (ended_printStatement n).rising
  · exact advance_bind_rises (by rw [hk]; rfl) (Nat.zero_le 1) fun _ =>
      (ih.block c).andThen fun _ => .pure _
  · exact pass_rises hk rfl fun _ => rising_ifStatement ih c
  · exact pass_rises hk rfl fun _ => rising_switchStatement ih c
  · exact pass_rises hk rfl fun _ =>
      (ended_parenthesized n (by decide) (by decide)).rising.andThen fun _ =>
      (ih.statement _).andThen fun _ => .pure _
  · exact pass_rises hk rfl fun _ => (ended_forHead n).rising.andThen fun _ =>
      (ih.statement _).andThen fun _ => .pure _
  · exact pass_rises hk rfl fun _ => (ih.statement _).andThen fun _ =>
      .after rfl fun _ =>
      (ended_parenthesized n (by decide) (by decide)).rising.andThen fun _ =>
      .after rfl fun _ => .pure _
  · exact (ended_jumpStatement (k := .kwBreak) (by decide) c _).plain.rises (by simp [hk])
  · exact (ended_jumpStatement (k := .kwContinue) (by decide) c _).plain.rises (by simp [hk])
  · exact pass_rises hk rfl fun _ => (ended_returnStatement n _).rising
  · exact (ended_expressionStatement n).rising s

theorem rising_items (ih : RisingStmt n) {c : Context} (h : c.inBlock = true) :
    Rising 0 0 (items (n + 1) c) := by
  intro s
  rw [items, peek_bind]
  generalize s.current.kind = k
  split
  · exact Rising.pure _ s
  · exact Rising.pure _ s
  · exact ((ih.declaration h).andThen fun _ => (ih.items h).andThen fun _ => .pure _) s

theorem rising_arms (ih : RisingStmt n) (c : Context) : Rising 0 0 (arms (n + 1) c) := by
  intro s
  rw [arms, peek_bind]
  generalize hk : s.current.kind = k
  split
  · exact pass_rises hk rfl fun _ =>
      (plain_expr n _).rising.andThen fun _ => .after rfl fun _ =>
      (ih.statement _).andThen fun _ => (ih.arms _).andThen fun _ => .pure _
  · exact pass_rises hk rfl fun _ =>
      .after rfl fun _ => (ih.statement _).andThen fun _ =>
      .pure _
  · exact Rising.pure _ s

theorem risingStmt (n : Nat) : RisingStmt n := by
  induction n with
  | zero =>
    exact ⟨fun _ => .halt _, fun _ => .halt _, fun _ => .halt _, fun _ => .halt _,
      fun _ => .halt _, fun _ => .halt _⟩
  | succ n ih =>
    refine ⟨fun {c} h => ?_, rising_function ih, fun c => ?_, fun c => ?_, rising_items ih,
      rising_arms ih⟩
    · rw [declaration_succ, h]
      exact .recovering (rising_unrecovered ih c)
    · rw [statement_succ]
      exact (Rising.guardDepth _).andThen fun _ => rising_form ih _
    · rw [block]
      exact ((ih.items rfl).raise 1).bind (Nat.zero_le _) fun _ =>
        (Rising.expect rfl (Nat.zero_le 1)).andThen fun _ => .pure _

end Scriptlet.Parse

import Scriptlet.Proofs.Parsing.Follow
import Scriptlet.Proofs.Parsing.Reading

/-! How far the steps of a parser come, and that they come to an end: no step moves back, one that
succeeds has moved on where the grammar asks for a token, and between two tokens the fuel for so
many rules is enough. -/
namespace Scriptlet.Parse

variable {α β : Type} {s : State} {m n room : Nat}

/-- How far a step may come: no further back than these tokens if it succeeds, and than those if
it does not. It does not run out of fuel. -/
def Result.Within (oks bads : List Token) : Result α → Prop
  | .ok _ r => r.stream <:+ oks
  | .bad r => r.stream <:+ bads
  | .halt cause _ => cause ≠ .outOfFuel

theorem Result.Within.mono {oks oks' bads bads' : List Token} {x : Result α}
    (h : x.Within oks bads) (hoks : oks <:+ oks') (hbads : bads <:+ bads') :
    x.Within oks' bads' := by
  cases x with
  | ok a r => exact List.IsSuffix.trans h hoks
  | bad r => exact List.IsSuffix.trans h hbads
  | halt cause r => exact h

namespace State

theorem rest_suffix (s : State) : s.rest <:+ s.stream := List.suffix_cons _ _

theorem pullFrom_suffix {ts : List Token} {s r : State} (h : s.pullFrom ts = some r) :
    r.stream <:+ ts := by
  induction ts generalizing s with
  | nil => cases h
  | cons t ts ih =>
    unfold pullFrom at h
    split at h
    · exact (ih h).trans (List.suffix_cons _ _)
    · obtain rfl := Option.some.inj h
      exact List.suffix_rfl

theorem pull_suffix {s r : State} (h : s.pull = some r) : r.stream <:+ s.rest := pullFrom_suffix h

/-- Recovery passes the current token, unless it may stand there. -/
theorem recover_suffix {r : State} {inBlock : Bool} {depth : Nat}
    (h : s.recover inBlock depth = some r) : r.stream <:+ s.stream ∧
      (landing inBlock s.current.kind depth ≠ .here → r.stream <:+ s.rest) := by
  fun_induction recover s inBlock depth with
  | case1 s depth hlanding =>
    obtain rfl := Option.some.inj h
    exact ⟨List.suffix_rfl, fun hne => absurd hlanding hne⟩
  | case2 s depth hlanding =>
    have hsuffix := pull_suffix h
    exact ⟨hsuffix.trans s.rest_suffix, fun _ => hsuffix⟩
  | case3 s depth depth' hlanding hnone => simp at h
  | case4 s depth depth' hlanding u hu ih =>
    have hsuffix := (ih h).1.trans (pull_suffix hu)
    exact ⟨hsuffix.trans s.rest_suffix, fun _ => hsuffix⟩

end State

/-- A token has been passed anyhow. -/
theorem Result.Within.relax {x : Result α} (h : x.Within s.rest s.rest) :
    x.Within s.rest s.stream :=
  h.mono List.suffix_rfl s.rest_suffix

/-- With at most so many tokens after the current one, the parser comes to an end. -/
def Total (m : Nat) (p : Parser α) : Prop :=
  ∀ s, s.rest.length ≤ m → (p s).Within s.stream s.stream

/-- And it has passed a token if it succeeds. -/
def Progressing (m : Nat) (p : Parser α) : Prop :=
  ∀ s, s.rest.length ≤ m → (p s).Within s.rest s.stream

theorem Progressing.total {p : Parser α} (h : Progressing m p) : Total m p :=
  fun s hm => (h s hm).mono s.rest_suffix List.suffix_rfl

theorem length_lt_of_suffix {r : State} {ts : List Token} (h : r.stream <:+ ts) :
    r.rest.length < ts.length := h.length_le

theorem rest_le_of_suffix {r : State} (h : r.stream <:+ s.stream) :
    r.rest.length ≤ s.rest.length := Nat.le_of_lt_succ (length_lt_of_suffix h)

theorem rest_suffix_of_suffix {r : State} (h : r.stream <:+ s.stream) : r.rest <:+ s.rest := by
  rcases List.suffix_cons_iff.1 h with heq | hrest
  · exact (List.cons.inj heq).2 ▸ List.suffix_rfl
  · exact r.rest_suffix.trans hrest

theorem within_bind {p : Parser α} {f : α → Parser β} {middle oks bads : List Token}
    (hp : (p s).Within middle bads)
    (hf : ∀ a r, r.stream <:+ middle → (f a r).Within oks bads) :
    ((p >>= f) s).Within oks bads := by
  change (Parser.bind p f s).Within oks bads
  unfold Parser.bind
  cases hps : p s with
  | ok a r =>
    rw [hps] at hp
    exact hf a r hp
  | bad r =>
    rw [hps] at hp
    exact hp
  | halt cause r =>
    rw [hps] at hp
    exact hp

namespace Total

theorem pure (a : α) : Total m (pure a) := fun _ _ => List.suffix_rfl

theorem bind {p : Parser α} {f : α → Parser β} (hp : Total m p) (hf : ∀ a, Total m (f a)) :
    Total m (p >>= f) := fun s hm =>
  within_bind (hp s hm) fun a r hsuffix =>
    (hf a r (Nat.le_trans (rest_le_of_suffix hsuffix) hm)).mono hsuffix hsuffix

theorem progressing {p : Parser α} {f : α → Parser β} (hp : Total m p)
    (hf : ∀ a, Progressing m (f a)) : Progressing m (p >>= f) := fun s hm =>
  within_bind (hp s hm) fun a r hsuffix =>
    (hf a r (Nat.le_trans (rest_le_of_suffix hsuffix) hm)).mono
      (rest_suffix_of_suffix hsuffix) hsuffix

theorem report (t : Token) (cause : SyntaxError) : Total m (report t cause) :=
  fun _ _ => List.suffix_rfl

theorem reportHere (cause : SyntaxError) : Total m (reportHere cause) :=
  fun _ _ => List.suffix_rfl

theorem complainIf (bad : Bool) {complaint : Parser Unit} (h : Total m complaint) :
    Total m (complainIf bad complaint) := by
  cases bad with
  | true => exact h
  | false => exact pure ()

theorem guardDepth (c : Context) : Total m (guardDepth c) := by
  unfold Parse.guardDepth
  split
  · exact fun _ _ => nofun
  · exact pure ()

theorem check_bind {kind : Kind} {f : Bool → Parser β} (hf : ∀ b, Total m (f b)) :
    Total m (check kind >>= f) := fun s hm => hf _ s hm

theorem unlessAt {stop : Kind} {absent : α} {p : Parser α} (hp : Total m p) :
    Total m (unlessAt stop absent p) :=
  check_bind fun b => by
    cases b with
    | true => exact pure absent
    | false => exact hp

end Total

theorem advance_within (hs : s.current.kind ≠ .eof) : (advance s).Within s.rest s.rest := by
  have hend : s.atEnd = false := by simp [State.atEnd, hs]
  unfold advance
  cases hpull : s.pull with
  | none => simp [hend, Result.Within]
  | some r =>
    simp only [hend, Bool.false_eq_true, if_false]
    exact State.pull_suffix hpull

/-- What follows a token that is passed has one token less. -/
theorem advance_bind_within {f : Token → Parser β} (hs : s.current.kind ≠ .eof)
    (hm : s.rest.length ≤ m) (hf : ∀ m' < m, ∀ t, Total m' (f t)) :
    ((advance >>= f) s).Within s.rest s.rest :=
  within_bind (advance_within hs) fun t r hsuffix => by
    have hlength := length_lt_of_suffix hsuffix
    exact (hf _ (Nat.lt_of_lt_of_le hlength hm) t r (Nat.le_refl _)).mono hsuffix hsuffix

namespace Progressing

theorem bind {p : Parser α} {f : α → Parser β} (hp : Progressing m p)
    (hf : ∀ a, ∀ m' < m, Total m' (f a)) : Progressing m (p >>= f) := fun s hm =>
  within_bind (hp s hm) fun a r hsuffix => by
    have hlength := length_lt_of_suffix hsuffix
    exact (hf a _ (Nat.lt_of_lt_of_le hlength hm) r (Nat.le_refl _)).mono hsuffix
      (hsuffix.trans s.rest_suffix)

theorem map {p : Parser α} (f : α → β) (hp : Progressing m p) : Progressing m (f <$> p) :=
  hp.bind fun a _ _ => .pure (f a)

theorem expect (slot : Slot) : Progressing m (expect slot) := by
  intro s _
  change ((if s.current.kind == slot.kind then advance else fail (.expected slot)) s).Within _ _
  by_cases hkind : s.current.kind = slot.kind
  · simp only [hkind, beq_self_eq_true, if_true]
    exact (advance_within (hkind ▸ slot_kind_ne_eof slot)).relax
  · simp only [beq_iff_eq, hkind, if_false]
    exact List.suffix_rfl

end Progressing

/-- Either the token is not there and is not passed, or it is there and is passed. -/
theorem accept_bind_within {kinds : List Kind} (hkinds : .eof ∉ kinds)
    {f : Option Token → Parser β} {oks bads : List Token} (hm : s.rest.length ≤ m)
    (hnone : (f none s).Within oks bads)
    (hsome : ∀ m' < m, ∀ t, Total m' (f (some t))) (hoks : s.rest <:+ oks)
    (hbads : s.rest <:+ bads) : ((accept kinds >>= f) s).Within oks bads := by
  by_cases hkind : s.current.kind ∈ kinds
  · have hsteps : (accept kinds >>= f) s = (advance >>= fun t => f (some t)) s := by
      unfold accept
      rw [bind_assoc]
      change ((if s.current.kind ∈ kinds then (do return some (← advance)) else pure none) >>= f) s
        = _
      rw [if_pos hkind, bind_assoc]
      rfl
    rw [hsteps]
    exact (advance_bind_within (fun he => hkinds (he ▸ hkind)) hm hsome).mono hoks hbads
  · have hsteps : (accept kinds >>= f) s = f none s := by
      unfold accept
      rw [bind_assoc]
      change ((if s.current.kind ∈ kinds then (do return some (← advance)) else pure none) >>= f) s
        = _
      rw [if_neg hkind]
      rfl
    rw [hsteps]
    exact hnone

theorem Total.accept {kinds : List Kind} (hkinds : .eof ∉ kinds) {f : Option Token → Parser β}
    (hnone : Total m (f none)) (hsome : ∀ m' < m, ∀ t, Total m' (f (some t))) :
    Total m (accept kinds >>= f) := fun s hm =>
  accept_bind_within hkinds hm (hnone s hm) hsome s.rest_suffix s.rest_suffix

theorem Progressing.accept {kinds : List Kind} (hkinds : .eof ∉ kinds)
    {f : Option Token → Parser β} (hnone : Progressing m (f none))
    (hsome : ∀ m' < m, ∀ t, Total m' (f (some t))) : Progressing m (accept kinds >>= f) :=
  fun s hm => accept_bind_within hkinds hm (hnone s hm) hsome List.suffix_rfl s.rest_suffix

/-- The grammar functions of expressions with this much fuel. -/
structure TotalExpr (n : Nat) : Prop where
  expr {room : Nat} {m : Nat} {level : Level} (h : rulesPerToken * m + level.rank < n) :
    Progressing m (expr n room level)
  operands {room : Nat} {m : Nat} {level : Level} (left : Expr Unit) (h : rulesPerToken * m < n) :
    Total m (operands n room level left)
  calls {room : Nat} {m : Nat} (callee : Expr Unit) (h : rulesPerToken * m < n) :
    Total m (calls n room callee)
  arguments {room : Nat} {m : Nat} (count : Nat) (h : rulesPerToken * m + 11 < n) :
    Progressing m (arguments n room count)

theorem rank_le (level : Level) : level.rank ≤ 11 := by
  cases level <;> decide

theorem literal_within (value : Literal) (hs : s.current.kind ≠ .eof) :
    (literal value s).Within s.rest s.rest :=
  advance_bind_within hs (Nat.le_refl _) fun _ _ _ => .pure _

theorem numberLiteral_within (hs : s.current.kind ≠ .eof) :
    (numberLiteral s).Within s.rest s.rest := by
  refine advance_bind_within hs (Nat.le_refl _) fun _ _ t => ?_
  cases readNumber? t.lexeme with
  | none => exact fun _ _ => nofun
  | some x => exact .pure _

theorem total_primary (ih : TotalExpr n) (h : rulesPerToken * m < n + 1) :
    Progressing m (expr (n + 1) (room + 1) .primary) := by
  intro s hm
  rw [expr, peek_bind]
  generalize hk : s.current.kind = k
  have hpassed {k' : Kind} (hk' : s.current.kind = k') (hne : k' ≠ .eof) :
      s.current.kind ≠ .eof := hk' ▸ hne
  split
  · exact (literal_within _ (hpassed hk (by decide))).relax
  · exact (literal_within _ (hpassed hk (by decide))).relax
  · exact (literal_within _ (hpassed hk (by decide))).relax
  · exact (numberLiteral_within (hpassed hk (by decide))).relax
  · refine (advance_bind_within (hpassed hk (by decide)) hm fun _ _ _ => ?_).relax
    exact .pure _
  · refine (advance_bind_within (hpassed hk (by decide)) hm fun m' hm' _ => ?_).relax
    have hinner : Progressing m' (expr n room .comma) := ih.expr (by
      simp only [rulesPerToken, Level.rank] at h ⊢
      omega)
    exact (hinner.bind fun _ _ _ => (Progressing.expect _).total.bind fun _ => .pure _).total
  · refine (advance_bind_within (hpassed hk (by decide)) hm fun _ _ _ => ?_).relax
    exact .pure _
  · exact List.suffix_rfl

theorem total_assignment (ih : TotalExpr n) (h : rulesPerToken * m + 10 < n + 1) :
    Progressing m (expr (n + 1) (room + 1) .assignment) := by
  simp only [rulesPerToken] at h
  rw [expr]
  refine (ih.expr (by simp only [rulesPerToken, Level.rank]; omega)).bind fun target m₁ hm₁ => ?_
  refine .accept (by decide) (.pure _) fun m₂ hm₂ equals => ?_
  refine (ih.expr (by simp only [rulesPerToken, Level.rank]; omega)).total.bind fun value => ?_
  cases target with
  | reference name use => exact .pure _
  | _ => exact (Total.report _ _).bind fun _ => .pure _

theorem total_conditional (ih : TotalExpr n) (h : rulesPerToken * m + 9 < n + 1) :
    Progressing m (expr (n + 1) (room + 1) .conditional) := by
  simp only [rulesPerToken] at h
  rw [expr]
  refine (ih.expr (by simp only [rulesPerToken, Level.rank]; omega)).bind fun condition m₁ hm₁ => ?_
  refine .accept (by decide) (.pure _) fun m₂ hm₂ question => ?_
  refine (ih.expr (by simp only [rulesPerToken, Level.rank]; omega)).total.bind fun yes => ?_
  refine (Progressing.expect _).total.bind fun colon => ?_
  refine (ih.expr (by simp only [rulesPerToken, Level.rank]; omega)).total.bind fun no => ?_
  exact .pure _

theorem total_unary (ih : TotalExpr n) (h : rulesPerToken * m + 2 < n + 1) :
    Progressing m (expr (n + 1) (room + 1) .unary) := by
  simp only [rulesPerToken] at h
  rw [expr]
  refine .accept (by decide) ?_ fun m₁ hm₁ op => ?_
  · exact ih.expr (by simp only [rulesPerToken, Level.rank]; omega)
  · exact (ih.expr (by simp only [rulesPerToken, Level.rank]; omega)).total.bind fun _ => .pure _

theorem total_expr_succ (ih : TotalExpr n) {level : Level}
    (h : rulesPerToken * m + level.rank < n + 1) : Progressing m (expr (n + 1) room level) := by
  cases room with
  | zero => exact fun _ _ => nofun
  | succ room => cases level with
    | primary => exact total_primary ih h
    | assignment => exact total_assignment ih h
    | conditional => exact total_conditional ih h
    | unary => exact total_unary ih h
    | call =>
      simp only [rulesPerToken, Level.rank] at h
      exact (ih.expr (by simp only [rulesPerToken, Level.rank]; omega)).bind fun callee m₁ hm₁ =>
        ih.calls callee (by simp only [rulesPerToken]; omega)
    | _ =>
      simp only [rulesPerToken, Level.rank] at h
      exact (ih.expr (by simp only [rulesPerToken, Level.tighter, Level.rank]; omega)).bind
        fun left m₁ hm₁ => ih.operands left (by simp only [rulesPerToken]; omega)

theorem total_operands (ih : TotalExpr n) (level : Level) (left : Expr Unit)
    (h : rulesPerToken * m < n + 1) : Total m (operands (n + 1) room level left) := by
  simp only [rulesPerToken] at h
  have hrank := rank_le level.tighter
  rw [operands]
  refine .accept (by cases level <;> decide) (.pure _) fun m₁ hm₁ op => ?_
  exact (ih.expr (by simp only [rulesPerToken]; omega)).total.bind fun right =>
    ih.operands _ (by simp only [rulesPerToken]; omega)

theorem total_calls (ih : TotalExpr n) (callee : Expr Unit) (h : rulesPerToken * m < n + 1) :
    Total m (calls (n + 1) room callee) := by
  simp only [rulesPerToken] at h
  rw [calls_succ]
  refine .accept (by decide) (.pure _) fun m₁ hm₁ left => ?_
  have harguments : Total m₁ (argumentList n room) :=
    .unlessAt (ih.arguments 0 (by simp only [rulesPerToken]; omega)).total
  exact harguments.bind fun args => (Progressing.expect _).total.bind fun paren =>
    ih.calls _ (by simp only [rulesPerToken]; omega)

theorem total_arguments (ih : TotalExpr n) (count : Nat) (h : rulesPerToken * m + 11 < n + 1) :
    Progressing m (arguments (n + 1) room count) := by
  simp only [rulesPerToken] at h
  rw [arguments_succ]
  refine (Total.complainIf _ (.reportHere _)).progressing fun _ => ?_
  refine (ih.expr (by simp only [rulesPerToken, Level.rank]; omega)).bind fun first m₁ hm₁ => ?_
  refine .accept (by decide) (.pure _) fun m₂ hm₂ comma => ?_
  exact (ih.arguments _ (by simp only [rulesPerToken]; omega)).total.bind fun rest => .pure _

theorem totalExpr (n : Nat) : TotalExpr n := by
  induction n with
  | zero =>
    exact ⟨fun h => absurd h (Nat.not_lt_zero _), fun _ h => absurd h (Nat.not_lt_zero _),
      fun _ h => absurd h (Nat.not_lt_zero _), fun _ h => absurd h (Nat.not_lt_zero _)⟩
  | succ n ih =>
    exact ⟨total_expr_succ ih, total_operands ih _, total_calls ih, total_arguments ih⟩

theorem total_expr (h : rulesPerToken * m + 11 < n) : Progressing m (expr n room .comma) :=
  (totalExpr n).expr h

end Scriptlet.Parse

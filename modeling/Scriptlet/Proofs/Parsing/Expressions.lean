import Scriptlet.Proofs.Parsing.Room

/-! What the grammar says is an expression is read as this expression, unless the next token goes on
with it or there is no room for its rules. The fuel is counted by tokens. -/
namespace Scriptlet.Parse

open Grammar

variable {α β : Type} {n room : Nat} {t u : Token} {ts us rest : List Token}

/-- The parser before these tokens, of which there is one at least; nothing was reported. -/
def reading : List Token → State
  | [] => ⟨default, [], false, []⟩
  | t :: ts => ⟨t, ts, false, []⟩

theorem bind_of_ok {p : Parser α} {f : α → Parser β} {s r : State} {a : α} (h : p s = .ok a r) :
    (p >>= f) s = f a r := by
  change Parser.bind p f s = f a r
  rw [Parser.bind, h]

theorem bind_of_bad {p : Parser α} {f : α → Parser β} {s r : State} (h : p s = .bad r) :
    (p >>= f) s = .bad r := by
  change Parser.bind p f s = .bad r
  rw [Parser.bind, h]

theorem bind_of_halt {p : Parser α} {f : α → Parser β} {s r : State} {cause : Halt}
    (h : p s = .halt cause r) : (p >>= f) s = .halt cause r := by
  change Parser.bind p f s = .halt cause r
  rw [Parser.bind, h]

theorem map_of_ok {p : Parser α} {f : α → β} {s r : State} {a : α} (h : p s = .ok a r) :
    (f <$> p) s = .ok (f a) r := by
  rw [map_eq_pure_bind, bind_of_ok h]
  rfl

theorem peek_reading : peek (reading (t :: ts)) = .ok t.kind (reading (t :: ts)) := rfl

theorem advance_reading (ht : t.kind ≠ .eof) (hne : ts ≠ []) (hts : Proper ts) :
    advance (reading (t :: ts)) = .ok t (reading ts) := by
  obtain ⟨u, us, rfl⟩ := List.exists_cons_of_ne_nil hne
  have hu := (proper_cons.1 hts).1
  simp [advance, reading, State.atEnd, State.pull, State.pullFrom, ht, hu]

theorem accept_reading {kinds : List Kind} (ht : t.kind ∈ kinds) (heof : .eof ∉ kinds)
    (hne : ts ≠ []) (hts : Proper ts) :
    accept kinds (reading (t :: ts)) = .ok (some t) (reading ts) := by
  have hend : t.kind ≠ .eof := fun he => heof (he ▸ ht)
  rw [accept, bind_of_ok peek_reading, if_pos ht, bind_of_ok (advance_reading hend hne hts)]
  rfl

theorem accept_reading_none {kinds : List Kind} (ht : t.kind ∉ kinds) :
    accept kinds (reading (t :: ts)) = .ok none (reading (t :: ts)) := by
  rw [accept, bind_of_ok peek_reading, if_neg ht]
  rfl

theorem expect_reading {slot : Slot} (ht : t.kind = slot.kind) (hne : ts ≠ [])
    (hts : Proper ts) : expect slot (reading (t :: ts)) = .ok t (reading ts) := by
  have hcheck : check slot.kind (reading (t :: ts)) = .ok true (reading (t :: ts)) := by
    simp [check, reading, ht]
  rw [expect, bind_of_ok hcheck, if_pos rfl]
  exact advance_reading (ht ▸ slot_kind_ne_eof slot) hne hts

theorem unlessAt_reading {stop : Kind} {absent : α} {p : Parser α} (ht : t.kind = stop) :
    unlessAt stop absent p (reading (t :: ts)) = .ok absent (reading (t :: ts)) := by
  have hcheck : check stop (reading (t :: ts)) = .ok true (reading (t :: ts)) := by
    simp [check, reading, ht]
  rw [unlessAt, bind_of_ok hcheck, if_pos rfl]
  rfl

theorem unlessAt_reading_of_ne {stop : Kind} {absent : α} {p : Parser α} (ht : t.kind ≠ stop) :
    unlessAt stop absent p (reading (t :: ts)) = p (reading (t :: ts)) := by
  have hcheck : check stop (reading (t :: ts)) = .ok false (reading (t :: ts)) := by
    simp [check, reading, ht]
  rw [unlessAt, bind_of_ok hcheck, if_neg (by decide)]

/-- What a level does with an expression that is complete on the level below. -/
def resume (n room : Nat) (level : Level) (e : Expr Unit) : Parser (Expr Unit) :=
  match level with
  | .assignment | .conditional | .unary | .primary => pure e
  | .call => calls n room e
  | level => operands n room level e

/-- The tokens at which `resume` is not yet right: an operator of the level itself is none of
them where there may be more operands. -/
def blocked : Level → List Kind
  | .assignment => Level.assignment.followers
  | .conditional => Level.conditional.followers
  | .unary => Level.unary.followers
  | level => level.tighter.followers

theorem resume_eq_ok {level : Level} {e : Expr Unit} (hu : u.kind ∉ level.followers) (hn : 1 ≤ n) :
    resume n room level e (reading (u :: us)) = .ok e (reading (u :: us)) := by
  obtain ⟨n, rfl⟩ := Nat.exists_eq_add_of_le' hn
  have hext := Level.extensions_follow hu
  have hjoined (h : u.kind ∉ level.operators) :
      operands (n + 1) room level e (reading (u :: us)) = .ok e (reading (u :: us)) := by
    rw [operands, bind_of_ok (accept_reading_none h)]
    rfl
  cases level with
  | assignment | conditional | unary | primary => rfl
  | call =>
    have hparen : u.kind ∉ [Kind.leftParen] := hext
    rw [resume, calls_succ, bind_of_ok (accept_reading_none hparen)]
    rfl
  | _ => exact hjoined hext

theorem blocked_of_followers {level : Level} {k : Kind} (hk : k ∉ level.followers) :
    k ∉ blocked level := by
  cases level <;> first | exact hk | exact Level.followers_tighter hk

theorem tighter_of_blocked {level : Level} {k : Kind} (hk : k ∉ blocked level) :
    k ∉ level.tighter.followers := by
  cases level <;> first | exact hk | exact Level.followers_tighter hk

/-- One level up: what the level below read is the first operand here. -/
theorem expr_of_tighter {level : Level} {e : Expr Unit} (hlevel : level ≠ .primary)
    (hfirst : level = .unary → t.kind ∉ [Kind.bang, .minus]) (hu : u.kind ∉ blocked level)
    (h : expr n room level.tighter (reading (t :: ts)) = .ok e (reading (u :: us))) :
    expr (n + 1) (room + 1) level (reading (t :: ts)) =
      resume n room level e (reading (u :: us)) := by
  cases level with
  | assignment =>
    have hext : u.kind ∉ [Kind.equal] := Level.extensions_follow hu
    have h : expr n room .conditional _ = _ := h
    rw [expr, bind_of_ok h, bind_of_ok (accept_reading_none hext)]
    rfl
  | conditional =>
    have hext : u.kind ∉ [Kind.question] := Level.extensions_follow hu
    have h : expr n room .or _ = _ := h
    rw [expr, bind_of_ok h, bind_of_ok (accept_reading_none hext)]
    rfl
  | unary =>
    rw [expr, bind_of_ok (accept_reading_none (hfirst rfl))]
    exact h
  | call =>
    rw [expr]
    exact bind_of_ok h
  | primary => exact absurd rfl hlevel
  | _ => exact bind_of_ok h

/-- A name is an expression of every level, unless the next token goes on with it. -/
theorem expr_reference {level : Level} (ht : t.kind = .identifier)
    (hu : u.kind ∉ level.followers) (hp : Proper (u :: us)) (hn : 1 + level.rank ≤ n)
    (hroom : 1 + level.rank ≤ room) :
    expr n room level (reading (t :: u :: us)) = .ok (.reference t ()) (reading (u :: us)) := by
  induction hr : level.rank generalizing level n room with
  | zero =>
    obtain rfl : level = .primary := Level.rank_injective hr
    obtain ⟨n, rfl⟩ := Nat.exists_eq_add_of_le' (Nat.le_trans (Nat.le_add_right 1 _) hn)
    obtain ⟨room, rfl⟩ := Nat.exists_eq_add_of_le' (Nat.le_trans (Nat.le_add_right 1 _) hroom)
    rw [expr, bind_of_ok peek_reading]
    simp only [ht]
    rw [bind_of_ok (advance_reading (by simp [ht]) (by simp) hp)]
    rfl
  | succ r ih =>
    obtain ⟨n, rfl⟩ := Nat.exists_eq_add_of_le' (Nat.le_trans (Nat.le_add_right 1 _) hn)
    obtain ⟨room, rfl⟩ := Nat.exists_eq_add_of_le' (Nat.le_trans (Nat.le_add_right 1 _) hroom)
    have hlevel : level ≠ .primary := by
      rintro rfl
      simp [Level.rank] at hr
    have hrank := Level.rank_tighter hlevel
    have hbelow : expr n room level.tighter _ = _ :=
      ih (Level.followers_tighter hu) (by omega) (by omega) (by omega)
    rw [expr_of_tighter hlevel (by simp [ht]) (blocked_of_followers hu) hbelow]
    exact resume_eq_ok hu (by omega)

/-- The phrase is read off its tokens, when what stands after them does not belong to it. What an
expression may go on with on its own level is left to `resume`, with fuel for it. -/
def Complete : Phrase → List Token → Prop
  | .expr level e, ts => ∀ (n room : Nat) (u : Token) (us : List Token),
    rulesPerToken * ts.length + level.rank ≤ n → e.rules level ≤ room + 1 → Proper (u :: us) →
      u.kind ∉ blocked level → ∃ m, n ≤ m + ts.length ∧
        expr n (room + 1) level (reading (ts ++ u :: us)) =
          resume m room level e (reading (u :: us))
  | .arguments es, ts => ∀ (n room count : Nat) (u : Token) (us : List Token), es ≠ [] →
    rulesPerToken * ts.length + 12 ≤ n → Expr.rulesAll es ≤ room →
      count + es.length ≤ maxArguments → Proper (u :: us) → u.kind = .rightParen →
        arguments n room count (reading (ts ++ u :: us)) = .ok es (reading (u :: us))

theorem Complete.expr {level : Level} {e : Expr Unit} (h : Complete (.expr level e) ts)
    (hts : (Phrase.expr level e).SpelledBy ts) (hn : rulesPerToken * ts.length + level.rank ≤ n)
    (hroom : e.rules level ≤ room) (hp : Proper (u :: us)) (hu : u.kind ∉ level.followers) :
    Parse.expr n room level (reading (ts ++ u :: us)) = .ok e (reading (u :: us)) := by
  have hrules : level.rank < e.rules level := hts.deep.2
  obtain ⟨room, rfl⟩ : ∃ k, room = k + 1 := ⟨room - 1, by omega⟩
  obtain ⟨m, hm, heq⟩ := h n room u us hn hroom hp (blocked_of_followers hu)
  have hlen := hts.opens.length_pos
  rw [heq]
  exact resume_eq_ok hu (by simp only [rulesPerToken] at hn; omega)

theorem complete_tighter {level : Level} {e : Expr Unit}
    (hts : (Phrase.expr level.tighter e).SpelledBy ts) (ih : Complete (.expr level.tighter e) ts) :
    Complete (.expr level e) ts := by
  intro n room u us hn hroom hp hu
  obtain ⟨t, vs, rfl, ht⟩ := hts.opens
  by_cases hlevel : level = .primary
  · subst hlevel
    exact ih n room u us hn hroom hp hu
  · have hrank := Level.rank_tighter hlevel
    obtain ⟨n, rfl⟩ : ∃ k, n = k + 1 := ⟨n - 1, by omega⟩
    have hroom : e.rules level.tighter ≤ room := by
      rw [Expr.rules_tighter hlevel hts.deep.1] at hroom
      omega
    have hbelow := ih.expr hts (n := n) (by omega) hroom hp (tighter_of_blocked hu)
    refine ⟨n, by simp, expr_of_tighter hlevel (fun hl => ?_) hu hbelow⟩
    subst hl
    have : ∀ k ∈ Level.call.openers, k ∉ [Kind.bang, .minus] := by decide
    exact this _ ht

theorem complete_binary {level : Level} {left right : Expr Unit} {op : Token}
    (hop : op.kind ∈ level.operators) (hright : (Phrase.expr level.tighter right).SpelledBy us)
    (ihleft : Complete (.expr level left) ts) (ihright : Complete (.expr level.tighter right) us) :
    Complete (.expr level (.binary left op right)) (ts ++ op :: us) := by
  intro n room u vs hn hroom hp hu
  have herror : op.kind ≠ .error := fun he => by cases level <;> simp [Level.operators, he] at hop
  have hjoined (m : Nat) (e : Expr Unit) : resume m room level e = operands m room level e ∧
      blocked level = level.tighter.followers := by
    cases level <;> first | exact ⟨rfl, rfl⟩ | simp [Level.operators] at hop
  simp only [List.length_append, List.length_cons, rulesPerToken] at hn
  have hafter : Proper (us ++ u :: vs) := by simp [hright.proper, proper_cons.1 hp]
  simp only [Expr.rules, Level.ofOperator_eq hop] at hroom
  obtain ⟨m, hm, heq⟩ := ihleft n room op (us ++ u :: vs)
    (by simp only [rulesPerToken]; omega) (by omega) (proper_cons.2 ⟨herror, hafter⟩)
    ((hjoined 0 left).2 ▸ Level.operators_follow hop)
  obtain ⟨m, rfl⟩ : ∃ k, m = k + 1 := ⟨m - 1, by omega⟩
  have hrank : level.tighter.rank ≤ level.rank := by cases level <;> decide
  have hroom : right.rules level.tighter ≤ room := by omega
  have hoperand := ihright.expr hright (n := m) (by simp only [rulesPerToken]; omega) hroom hp
    ((hjoined 0 left).2 ▸ hu)
  refine ⟨m, by simp; omega, ?_⟩
  have heof : Kind.eof ∉ level.operators := by cases level <;> decide
  rw [List.append_assoc, List.cons_append, heq, (hjoined _ _).1, (hjoined _ _).1, operands,
    bind_of_ok (accept_reading hop heof (by simp) hafter)]
  exact bind_of_ok hoperand

theorem complete_assign {name equals : Token} {value : Expr Unit}
    (hname : name.kind = .identifier) (hequals : equals.kind = .equal)
    (hvalue : (Phrase.expr .assignment value).SpelledBy ts)
    (ih : Complete (.expr .assignment value) ts) :
    Complete (.expr .assignment (.assign name value ())) (name :: equals :: ts) := by
  intro n room u us hn hroom hp hu
  simp only [List.length_cons, rulesPerToken, Level.rank] at hn
  obtain ⟨n, rfl⟩ : ∃ k, n = k + 1 := ⟨n - 1, by omega⟩
  have hafter : Proper (ts ++ u :: us) := by simp [hvalue.proper, proper_cons.1 hp]
  have hfollow : equals.kind ∉ Level.conditional.followers := by rw [hequals]; decide
  have hroom : value.rules .assignment ≤ room := by simpa [Expr.rules] using hroom
  have hdeep : Level.assignment.rank < value.rules .assignment := hvalue.deep.2
  have hshort : 1 + Level.conditional.rank ≤ room := by
    simp only [Level.rank] at hdeep ⊢
    omega
  have htarget := expr_reference (n := n) hname hfollow
    (proper_cons.2 ⟨by simp [hequals], hafter⟩) (by simp only [Level.rank]; omega) hshort
  have hequal : equals.kind ∈ [Kind.equal] := by simp [hequals]
  have hright := ih.expr hvalue (n := n) (by simp only [rulesPerToken, Level.rank]; omega)
    hroom hp hu
  refine ⟨n, by simp, ?_⟩
  rw [List.cons_append, List.cons_append, expr, bind_of_ok htarget,
    bind_of_ok (accept_reading hequal (by decide) (by simp) hafter)]
  exact bind_of_ok hright

theorem complete_conditional {question colon : Token} {condition yes no : Expr Unit}
    {vs : List Token} (hquestion : question.kind = .question) (hcolon : colon.kind = .colon)
    (hcondition : (Phrase.expr .or condition).SpelledBy ts) (hyes : ExprSpelledBy yes us)
    (hno : (Phrase.expr .conditional no).SpelledBy vs)
    (ihcondition : Complete (.expr .or condition) ts) (ihyes : Complete (.expr .comma yes) us)
    (ihno : Complete (.expr .conditional no) vs) :
    Complete (.expr .conditional (.conditional condition yes no))
      (ts ++ question :: (us ++ colon :: vs)) := by
  intro n room u ws hn hroom hp hu
  simp only [List.length_append, List.length_cons, rulesPerToken, Level.rank] at hn
  obtain ⟨n, rfl⟩ : ∃ k, n = k + 1 := ⟨n - 1, by omega⟩
  have hlast : Proper (vs ++ u :: ws) := by simp [hno.proper, proper_cons.1 hp]
  have hmiddle : Proper (colon :: (vs ++ u :: ws)) := proper_cons.2 ⟨by simp [hcolon], hlast⟩
  have hafter : Proper (us ++ colon :: (vs ++ u :: ws)) := proper_append.2 ⟨hyes.proper, hmiddle⟩
  have hopen : Proper (question :: (us ++ colon :: (vs ++ u :: ws))) :=
    proper_cons.2 ⟨by simp [hquestion], hafter⟩
  obtain ⟨hroom₁, hroom₂, hroom₃⟩ : condition.rules .or ≤ room ∧ yes.rules .comma ≤ room ∧
      no.rules .conditional ≤ room := by
    simp only [Expr.rules] at hroom
    omega
  have hfirst := ihcondition.expr hcondition (n := n)
    (by simp only [rulesPerToken, Level.rank]; omega) hroom₁ hopen (by rw [hquestion]; decide)
  have hmark : question.kind ∈ [Kind.question] := by simp [hquestion]
  have hsecond := ihyes.expr hyes (n := n)
    (by simp only [rulesPerToken, Level.rank]; omega) hroom₂ hmiddle (by rw [hcolon]; decide)
  have hthird := ihno.expr hno (n := n)
    (by simp only [rulesPerToken, Level.rank]; omega) hroom₃ hp hu
  refine ⟨n, by simp; omega, ?_⟩
  simp only [List.append_assoc, List.cons_append]
  rw [expr, bind_of_ok hfirst, bind_of_ok (accept_reading hmark (by decide) (by simp) hafter)]
  refine (bind_of_ok hsecond).trans ?_
  rw [bind_of_ok (expect_reading hcolon (by simp) hlast)]
  exact bind_of_ok hthird

theorem complete_unary {op : Token} {right : Expr Unit} (hop : op.kind ∈ [Kind.bang, .minus])
    (hright : (Phrase.expr .unary right).SpelledBy ts) (ih : Complete (.expr .unary right) ts) :
    Complete (.expr .unary (.unary op right)) (op :: ts) := by
  intro n room u us hn hroom hp hu
  simp only [List.length_cons, rulesPerToken, Level.rank] at hn
  obtain ⟨n, rfl⟩ : ∃ k, n = k + 1 := ⟨n - 1, by omega⟩
  have hafter : Proper (ts ++ u :: us) := by simp [hright.proper, proper_cons.1 hp]
  have hroom : right.rules .unary ≤ room := by simpa [Expr.rules] using hroom
  have hoperand := ih.expr hright (n := n) (by simp only [rulesPerToken, Level.rank]; omega)
    hroom hp hu
  refine ⟨n, by simp, ?_⟩
  rw [List.cons_append, expr, bind_of_ok (accept_reading hop (by decide) (by simp) hafter)]
  exact bind_of_ok hoperand

theorem complete_call {left right : Token} {callee : Expr Unit} {args : List (Expr Unit)}
    (hleft : left.kind = .leftParen) (hright : right.kind = .rightParen)
    (hmany : args.length ≤ maxArguments) (hargs : (Phrase.arguments args).SpelledBy us)
    (ihcallee : Complete (.expr .call callee) ts) (ihargs : Complete (.arguments args) us) :
    Complete (.expr .call (.call callee right args)) (ts ++ left :: (us ++ [right])) := by
  intro n room u vs hn hroom hp hu
  simp only [List.length_append, List.length_cons, List.length_nil, rulesPerToken] at hn
  have hclose : Proper (right :: u :: vs) := proper_cons.2 ⟨by simp [hright], hp⟩
  have hafter : Proper (us ++ right :: u :: vs) := proper_append.2 ⟨hargs.proper, hclose⟩
  simp only [Expr.rules] at hroom
  obtain ⟨m, hm, heq⟩ := ihcallee n room left (us ++ right :: u :: vs)
    (by simp only [rulesPerToken]; omega) (by omega) (proper_cons.2 ⟨by simp [hleft], hafter⟩)
    (by rw [hleft]; decide)
  obtain ⟨m, rfl⟩ : ∃ k, m = k + 1 := ⟨m - 1, by omega⟩
  have hlist : argumentList m room (reading (us ++ right :: u :: vs)) =
      .ok args (reading (right :: u :: vs)) := by
    cases args with
    | nil =>
      obtain rfl := hargs.starts
      exact unlessAt_reading hright
    | cons e es =>
      obtain ⟨t, us, rfl, ht⟩ := hargs.starts
      have : ∀ k ∈ Level.assignment.openers, k ≠ .rightParen := by decide
      refine (unlessAt_reading_of_ne (this _ ht)).trans ?_
      exact ihargs m room 0 right (u :: vs) (by simp) (by simp only [rulesPerToken]; omega)
        (by omega) (by simpa using hmany) hclose hright
  refine ⟨m, by simp; omega, ?_⟩
  have hparen : left.kind ∈ [Kind.leftParen] := by simp [hleft]
  simp only [List.append_assoc, List.cons_append, List.nil_append]
  rw [heq, resume, calls_succ, bind_of_ok (accept_reading hparen (by decide) (by simp) hafter)]
  refine (bind_of_ok hlist).trans ?_
  rw [bind_of_ok (expect_reading hright (by simp) hp)]
  rfl

theorem complete_grouping {left right : Token} {inner : Expr Unit}
    (hleft : left.kind = .leftParen) (hright : right.kind = .rightParen)
    (hinner : ExprSpelledBy inner ts) (ih : Complete (.expr .comma inner) ts) :
    Complete (.expr .primary (.grouping inner)) (left :: (ts ++ [right])) := by
  intro n room u us hn hroom hp hu
  simp only [List.length_cons, List.length_append, List.length_nil, rulesPerToken] at hn
  obtain ⟨n, rfl⟩ : ∃ k, n = k + 1 := ⟨n - 1, by omega⟩
  have hclose : Proper (right :: u :: us) := proper_cons.2 ⟨by simp [hright], hp⟩
  have hafter : Proper (ts ++ right :: u :: us) := proper_append.2 ⟨hinner.proper, hclose⟩
  have hroom : inner.rules .comma ≤ room := by simpa [Expr.rules, Level.rank] using hroom
  have hbody := ih.expr hinner (n := n) (by simp only [rulesPerToken, Level.rank]; omega) hroom
    hclose (by rw [hright]; decide)
  refine ⟨n, by simp, ?_⟩
  simp only [List.append_assoc, List.cons_append, List.nil_append]
  rw [expr, bind_of_ok peek_reading]
  simp only [hleft]
  rw [bind_of_ok (advance_reading (by simp [hleft]) (by simp) hafter), bind_of_ok hbody,
    bind_of_ok (expect_reading hright (by simp) hp)]
  rfl

/-- A token that is an expression by itself. -/
theorem complete_token {e : Expr Unit}
    (h : ∀ n room us, us ≠ [] → Proper us →
      expr (n + 1) (room + 1) .primary (reading (t :: us)) = .ok e (reading us)) :
    Complete (.expr .primary e) [t] := by
  intro n room u us hn hroom hp hu
  simp only [List.length_cons, List.length_nil, rulesPerToken] at hn
  obtain ⟨n, rfl⟩ : ∃ k, n = k + 1 := ⟨n - 1, by omega⟩
  exact ⟨n, by simp, h n room _ (by simp) hp⟩

theorem literal_reading {value : Literal} (ht : t.kind ≠ .eof) (hne : us ≠ []) (hp : Proper us) :
    literal value (reading (t :: us)) = .ok (.literal value) (reading us) := by
  rw [literal, bind_of_ok (advance_reading ht hne hp)]
  rfl

theorem complete_moreArguments {comma : Token} {e f : Expr Unit} {es : List (Expr Unit)}
    (hcomma : comma.kind = .comma) (he : (Phrase.expr .assignment e).SpelledBy ts)
    (hes : (Phrase.arguments (f :: es)).SpelledBy us) (ihe : Complete (.expr .assignment e) ts)
    (ihes : Complete (.arguments (f :: es)) us) :
    Complete (.arguments (e :: f :: es)) (ts ++ comma :: us) := by
  intro n room count u vs _ hn hroom hcount hp hu
  simp only [List.length_append, List.length_cons, rulesPerToken] at hn hcount
  obtain ⟨n, rfl⟩ : ∃ k, n = k + 1 := ⟨n - 1, by omega⟩
  have hafter : Proper (us ++ u :: vs) := proper_append.2 ⟨hes.proper, hp⟩
  have hnext : Proper (comma :: (us ++ u :: vs)) := proper_cons.2 ⟨by simp [hcomma], hafter⟩
  obtain ⟨hroom, hmore⟩ := Nat.max_le.1 hroom
  have hfirst := ihe.expr he (n := n) (by simp only [rulesPerToken, Level.rank]; omega) hroom hnext
    (by rw [hcomma]; decide)
  have hrest := ihes n room (count + 1) u vs (by simp) (by simp only [rulesPerToken]; omega)
    hmore (by simp; omega) hp hu
  have hmark : comma.kind ∈ [Kind.comma] := by simp [hcomma]
  have hfew : decide (maxArguments ≤ count) = false := by simp; omega
  rw [List.append_assoc, List.cons_append, arguments_succ, hfew, complainIf]
  refine (bind_of_ok hfirst).trans ?_
  rw [bind_of_ok (accept_reading hmark (by decide) (by simp) hafter)]
  exact bind_of_ok hrest

theorem complete_oneArgument {e : Expr Unit} (he : (Phrase.expr .assignment e).SpelledBy ts)
    (ih : Complete (.expr .assignment e) ts) : Complete (.arguments [e]) ts := by
  intro n room count u us _ hn hroom hcount hp hu
  simp only [List.length_cons, List.length_nil, rulesPerToken] at hn hcount
  obtain ⟨n, rfl⟩ : ∃ k, n = k + 1 := ⟨n - 1, by omega⟩
  have hroom : e.rules .assignment ≤ room := (Nat.max_le.1 hroom).1
  have hfirst := ih.expr he (n := n) (by simp only [rulesPerToken, Level.rank]; omega) hroom hp
    (by rw [hu]; decide)
  have hmark : u.kind ∉ [Kind.comma] := by simp [hu]
  have hfew : decide (maxArguments ≤ count) = false := by simp; omega
  rw [arguments_succ, hfew, complainIf]
  refine (bind_of_ok hfirst).trans ?_
  rw [bind_of_ok (accept_reading_none hmark)]
  rfl

theorem phrase_complete {p : Phrase} (h : p.SpelledBy ts) : Complete p ts := by
  induction h with
  | tighter inner ih => exact complete_tighter inner ih
  | binary hop _ hright ihleft ihright => exact complete_binary hop hright ihleft ihright
  | assign hname hequals hvalue ih => exact complete_assign hname hequals hvalue ih
  | conditional hquestion hcolon hcondition hyes hno ihcondition ihyes ihno =>
    exact complete_conditional hquestion hcolon hcondition hyes hno ihcondition ihyes ihno
  | unary hop hright ih => exact complete_unary hop hright ih
  | call hleft hright hmany _ hargs ihcallee ihargs =>
    exact complete_call hleft hright hmany hargs ihcallee ihargs
  | grouping hleft hright hinner ih => exact complete_grouping hleft hright hinner ih
  | reference hname =>
    refine complete_token fun n room us hne hp => ?_
    rw [expr, bind_of_ok peek_reading]
    simp only [hname]
    rw [bind_of_ok (advance_reading (by simp [hname]) hne hp)]
    rfl
  | kwTrue ht | kwFalse ht | kwNil ht =>
    refine complete_token fun n room us hne hp => ?_
    rw [expr, bind_of_ok peek_reading]
    simp only [ht]
    exact literal_reading (by simp [ht]) hne hp
  | number ht hx =>
    refine complete_token fun n room us hne hp => ?_
    rw [expr, bind_of_ok peek_reading]
    simp only [ht]
    rw [numberLiteral, bind_of_ok (advance_reading (by simp [ht]) hne hp)]
    simp only [hx]
    rfl
  | string ht =>
    refine complete_token fun n room us hne hp => ?_
    rw [expr, bind_of_ok peek_reading]
    simp only [ht]
    rw [stringLiteral, bind_of_ok (advance_reading (by simp [ht]) hne hp)]
    rfl
  | noArgument => exact fun _ _ _ _ _ hne => absurd rfl hne
  | oneArgument he ih => exact complete_oneArgument he ih
  | moreArguments hcomma he hes ihe ihes => exact complete_moreArguments hcomma he hes ihe ihes

end Scriptlet.Parse

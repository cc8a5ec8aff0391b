import Scriptlet.Proofs.Recovery.Around
import Scriptlet.Proofs.Recovery.Rising

/-! A switch in a block of the top level. Whether the block is closed by its own brace is left to
the rule for the arms of the switch: if this rule does not come to the brace of the switch, recovery
takes that brace, or one before it, for the brace of the block. -/
namespace Scriptlet.Parse

open Grammar

variable {n m room : Nat} {r s : State} {t u : Token} {ts us : List Token}

/-- What follows the subject of a switch in a block of the top level, through its arms. -/
def switchBody (n room : Nat) : Parser (Arms Unit) := do
  let _ ← expect .switchBody
  arms n (Context.top room).deeper.block.deeper

theorem elementary_switchBody (n room : Nat) : Elementary (switchBody n room) :=
  .bind (.expect _) fun _ => (elementaryStmt n).arms _

theorem outlasted_switchBody (h : n ≤ m) : Outlasted (switchBody n room) (switchBody m room) :=
  .after _ fun _ => (outlastedStmt h).arms _

/-- A switch among the declarations of a block, after its subject. -/
def switchRest (n room : Nat) (subject : Expr Unit) : Parser (Option (Stmt Unit)) :=
    recovering true do
  let as ← switchBody n room
  let _ ← expect .switchEnd
  return .switch subject as

theorem declaration_switch {keyword left right : Token} {e : Expr Unit}
    (hkeyword : keyword.kind = .kwSwitch) (hleft : left.kind = .leftParen)
    (hright : right.kind = .rightParen) (hu : u.kind ≠ .error) (he : ExprSpelledBy e ts)
    (hn : rulesPerToken * ts.length + 11 ≤ n + 1) (hroom : e.rules .comma ≤ room) :
    declaration (n + 3) (Context.top room).deeper.block
      (reading (keyword :: left :: (ts ++ right :: u :: us))) =
      switchRest (n + 1) room e (reading (u :: us)) := by
  have hkind : left.kind ≠ .error := by simp [hleft]
  have hadvance : advance (reading (keyword :: left :: (ts ++ right :: u :: us))) =
      .ok keyword (reading (left :: (ts ++ right :: u :: us))) := by
    simp [advance, reading, State.atEnd, State.pull, State.pullFrom, hkeyword, hkind]
  have hsubject : parenthesized (n + 1) (Context.top room).deeper.block.deeper.room .switchOpen
      .switchClose _ = _ :=
    parenthesized_complete hleft hright rfl he hn hroom (List.cons_ne_nil u []) (by simpa using hu)
  have hmore := (elementary_parenthesized _ _ _).reading_append (by simp) (by simp) hsubject us
  simp only [List.cons_append, List.append_assoc, List.nil_append] at hmore
  rw [declaration_succ]
  refine recovering_eq_of_eq ?_
  change unrecovered (n + 2) _ (reading (keyword :: left :: (ts ++ right :: u :: us))) = _
  rw [unrecovered, bind_of_ok peek_reading]
  simp only [hkeyword]
  rw [statement_succ]
  change form (n + 1) _ (reading (keyword :: left :: (ts ++ right :: u :: us))) = _
  rw [form, bind_of_ok peek_reading]
  simp only [hkeyword]
  rw [bind_of_ok hadvance, switchStatement, bind_of_ok hmore, switchBody]
  simp only [bind_assoc]
  rfl

/-- A block of the top level with a switch in it, and the end of the program:
`{ before switch ( subject ) { body } after }`. There is no error before and after the switch nor in
its subject, and room for them. The braces of its body match, and the end of the program is not in
there. -/
structure SwitchInBlock where
  room : Nat
  first : List (Stmt Unit)
  value : Expr Unit
  last : List (Stmt Unit)
  before : List Token
  subject : List Token
  body : List Token
  after : List Token
  left : Token
  keyword : Token
  leftParen : Token
  rightParen : Token
  leftBrace : Token
  rightBrace : Token
  right : Token
  eof : Token
  hbefore : (Clause.list false 1 first).SpelledBy before
  hsubject : ExprSpelledBy value subject
  hafter : (Clause.list false 1 last).SpelledBy after
  hfirstRoom : Stmt.rulesAll first ≤ operandRules + room
  hvalueRoom : value.rules .comma ≤ operandRules + room
  hlastRoom : Stmt.rulesAll last ≤ operandRules + room
  hbody : Balanced body
  hends : ∀ t ∈ body, t.kind ≠ .eof
  hleft : left.kind = .leftBrace
  hkeyword : keyword.kind = .kwSwitch
  hleftParen : leftParen.kind = .leftParen
  hrightParen : rightParen.kind = .rightParen
  hleftBrace : leftBrace.kind = .leftBrace
  hrightBrace : rightBrace.kind = .rightBrace
  hright : right.kind = .rightBrace
  heof : eof.kind = .eof

namespace SwitchInBlock

/-- Before the block. -/
def top (b : SwitchInBlock) : Context := .top (operandRules + b.room)

/-- What stands behind the brace of the switch. -/
def closing (b : SwitchInBlock) : List Token := b.after ++ [b.right, b.eof]

def inside (b : SwitchInBlock) : List Token := b.body ++ b.rightBrace :: b.closing

/-- The body and its braces. -/
def group (b : SwitchInBlock) : List Token := b.leftBrace :: (b.body ++ [b.rightBrace])

/-- The parser before the brace of the switch. -/
def entry (b : SwitchInBlock) : State := reading (b.leftBrace :: b.inside)

def tokens (b : SwitchInBlock) : List Token :=
  b.left :: (b.before ++ b.keyword :: b.leftParen ::
    (b.subject ++ b.rightParen :: b.leftBrace :: b.inside))

/-- All the tokens are one block, closed by the last brace, and the statements before and after the
switch are among its statements. -/
def OneBlock (b : SwitchInBlock) : Prop :=
  ∃ n middle r,
    declaration n b.top (reading b.tokens) = .ok (some (.block (b.first ++ middle ++ b.last))) r ∧
    r.stream = [b.eof] ∧
    parse b.room b.tokens = .ok ⟨[.block (b.first ++ middle ++ b.last)], r.reports⟩

/-- The rule for the arms comes from the one brace of the switch to the other. -/
def BodyRead (b : SwitchInBlock) : Prop :=
  ∃ n as r, switchBody n (operandRules + b.room) (reading b.group) = .ok as r ∧
    r.stream = [b.rightBrace]

/-- With this much fuel. -/
def readsBody (b : SwitchInBlock) (n : Nat) : Bool :=
  match switchBody n (operandRules + b.room) (reading b.group) with
  | .ok _ r => r.stream == [b.rightBrace]
  | .bad _ | .halt _ _ => false

theorem bodyRead_of_readsBody {b : SwitchInBlock} (h : b.readsBody n = true) : b.BodyRead := by
  unfold readsBody at h
  cases hbody : switchBody n (operandRules + b.room) (reading b.group) with
  | ok as r =>
    rw [hbody] at h
    exact ⟨n, as, r, hbody, eq_of_beq h⟩
  | bad r | halt cause r =>
    rw [hbody] at h
    cases h

/-- The rest of the block. -/
def rest (b : SwitchInBlock) (n : Nat) : Parser (Stmt Unit) := do
  let switch ← switchRest (n + 1) (operandRules + b.room) b.value
  let others ← items (n + 3) b.top.deeper.block
  let _ ← expect .blockClose
  return .block (b.first ++ (switch.toList ++ others))

variable (b : SwitchInBlock)

theorem proper_closing : Proper b.closing := by
  simp [closing, b.hafter.proper, b.hright, b.heof]

theorem entry_calm : b.entry.calm = b.entry := reading_calm _

/-- Neither what stands before the switch nor its subject is any matter of recovery. -/
theorem declaration_tokens (hn : rulesPerToken * b.tokens.length ≤ n) :
    declaration (b.first.length + n + 7) b.top (reading b.tokens) =
      recovering false (b.rest n) b.entry := by
  simp only [tokens, List.length_cons, List.length_append, rulesPerToken] at hn
  have hkind : b.keyword.kind ≠ .error ∧ b.keyword.kind ≠ .kwElse := by simp [b.hkeyword]
  obtain ⟨w, ws, hw, hproper, -⟩ :=
    list_next b.hbefore (show Proper [b.keyword] by simpa using hkind.1) hkind.2
  let others := b.leftParen :: (b.subject ++ b.rightParen :: b.leftBrace :: b.inside)
  have htokens : b.before ++ b.keyword :: others = w :: (ws ++ others) := by
    simpa using congrArg (· ++ others) hw
  change declaration (b.first.length + n + 3 + 4) (.top (operandRules + b.room))
    (reading (b.left :: (b.before ++ b.keyword :: others))) = _
  rw [htokens, declaration_block b.hleft (proper_cons.1 hproper).1, ← htokens]
  refine recovering_eq_of_eq ?_
  rw [reading_calm, entry_calm]
  have hfuel : b.first.length + n + 3 + 1 = b.first.length + (n + 4) := by omega
  rw [hfuel, items_before b.hbefore b.hfirstRoom hkind.1 hkind.2
    (by simp only [rulesPerToken]; omega),
    bind_eq_of_eq (items_of_more (by simp [reading, b.hkeyword]) (by simp [reading, b.hkeyword])),
    bind_assoc, bind_eq_of_eq (declaration_switch b.hkeyword b.hleftParen b.hrightParen
      (by simp [b.hleftBrace]) b.hsubject (by simp only [rulesPerToken]; omega) b.hvalueRoom)]
  simp only [bind_assoc, pure_bind]
  rfl

theorem group_followedBy : (reading b.group).followedBy b.closing = b.entry := by
  simp [reading, State.followedBy, group, entry, inside]

/-- The arms that are read through to the brace of the switch are read whatever stands behind it. -/
theorem switchBody_of_group {as : Arms Unit}
    (h : switchBody n (operandRules + b.room) (reading b.group) = .ok as r)
    (hn : n ≤ m) :
    switchBody m (operandRules + b.room) b.entry = .ok as (r.followedBy b.closing) := by
  obtain heq | ⟨⟨u, hu⟩, -⟩ := (elementary_switchBody n _).is_local b.closing (reading b.group)
  · rw [b.group_followedBy, h] at heq
    obtain ⟨u, hu⟩ | hmore := outlasted_switchBody hn b.entry
    · cases heq.symm.trans hu
    · exact hmore.trans heq
  · cases h.symm.trans hu

/-- The arms that end at the brace of the switch do not look behind it. -/
theorem bodyRead_of_stream {as : Arms Unit}
    (h : switchBody n (operandRules + b.room) b.entry = .ok as r)
    (hr : r.stream = b.rightBrace :: b.closing) : b.BodyRead := by
  obtain heq | ⟨-, hpast⟩ := (elementary_switchBody n _).is_local b.closing (reading b.group)
  · rw [b.group_followedBy, h] at heq
    cases hshort : switchBody n (operandRules + b.room) (reading b.group) with
    | bad u | halt cause u =>
      rw [hshort] at heq
      cases heq
    | ok as' u =>
      rw [hshort] at heq
      obtain ⟨-, rfl⟩ := Result.ok.inj heq
      have hr : u.stream ++ b.closing = [b.rightBrace] ++ b.closing := hr
      exact ⟨n, as', u, hshort, List.append_cancel_right hr⟩
  · rw [b.group_followedBy, h] at hpast
    have hlength := List.IsSuffix.length_le hpast
    rw [hr] at hlength
    exact absurd hlength (Nat.not_succ_le_self _)

/-- There is an end to come, so the tokens do not give out before. -/
theorem pull_leftBrace : ∃ s, b.entry.pull = some s ∧ Climbs 0 0 b.inside s.stream := by
  have hend : [b.eof] <:+ b.inside := ⟨b.body ++ b.rightBrace :: (b.after ++ [b.right]), by
    simp [inside, closing]⟩
  obtain ⟨s, hs, -⟩ := State.pullFrom_ahead (by simp [b.heof]) hend b.entry
  exact ⟨s, hs, (State.pullFrom_leads 0 hs).climbs⟩

theorem switchBody_rises (n : Nat) :
    (switchBody n (operandRules + b.room) b.entry).Rises 0 0 b.inside := by
  obtain ⟨s, hs, hclimbs⟩ := b.pull_leftBrace
  have hopen : expect .switchBody b.entry = .ok b.leftBrace s := expect_passes b.hleftBrace hs
  rw [switchBody, bind_of_ok hopen]
  exact ((risingStmt n).arms _ s).after hclimbs

/-- The brace of the switch is the only one that the arms can end at with none of theirs open. -/
theorem bodyRead_of_ok {as : Arms Unit}
    (h : switchBody n (operandRules + b.room) b.entry = .ok as r)
    (hr : r.current.kind = .rightBrace) (hclimbs : Climbs 0 0 b.inside r.stream) :
    b.BodyRead ∨ Climbs 0 1 b.inside r.stream := by
  obtain ⟨vs, j, hinside, hvs⟩ := hclimbs
  cases j with
  | succ j => exact .inr ⟨vs, j, hinside, by rw [hvs, Nat.zero_add, Nat.add_comm]⟩
  | zero =>
    obtain ⟨-, hstream⟩ := b.hbody.at_brace b.hrightBrace hinside hr hvs
    exact .inl (b.bodyRead_of_stream h hstream)

/-- Unless the arms come to the brace of the switch, none of the braces from there on is passed. -/
theorem switchRest_rises (hnot : ¬ b.BodyRead) (n : Nat) :
    (switchRest n (operandRules + b.room) b.value b.entry).Rises 0 0 b.inside := by
  refine recovering_rises ?_
  rw [entry_calm]
  have hbody := b.switchBody_rises n
  cases has : switchBody n (operandRules + b.room) b.entry with
  | halt cause r =>
    rw [bind_of_halt has]
    trivial
  | bad r =>
    rw [has] at hbody
    rw [bind_of_bad has]
    exact hbody
  | ok as r =>
    rw [has] at hbody
    rw [bind_of_ok has]
    by_cases hr : r.current.kind = .rightBrace
    · have hclimbs := (b.bodyRead_of_ok has hr hbody).resolve_left hnot
      have hend : Rising 1 0 (expect .switchEnd >>= fun _ => pure (Stmt.switch b.value as)) :=
        (Rising.expect rfl (Nat.zero_le 1)).andThen fun _ => .pure _
      exact (hend r).after hclimbs
    · rw [bind_of_bad (expect_fails hr)]
      exact hbody

/-- Where none of these braces is passed, what stands behind the switch is still to come. -/
theorem ahead_of_climbs (h : Climbs 0 0 b.inside s.stream) :
    s.current.kind ≠ .eof ∧ b.closing <:+ s.rest := by
  obtain ⟨xs, j, hinside, hxs⟩ := h
  obtain ⟨ys, hbody, hstream⟩ := b.hbody.before_brace b.hrightBrace hinside hxs
  cases ys with
  | nil =>
    obtain ⟨hcurrent, hrest⟩ := List.cons.inj hstream
    exact ⟨by simp [hcurrent, b.hrightBrace], hrest ▸ List.suffix_rfl⟩
  | cons y ys =>
    obtain ⟨hcurrent, hrest⟩ := List.cons.inj hstream
    refine ⟨hcurrent ▸ b.hends y (by simp [hbody]), ?_⟩
    exact hrest ▸ ⟨ys ++ [b.rightBrace], by simp⟩

/-- A brace before the closing tokens is passed, and no more than error tokens with it. -/
theorem pull_closing (h : b.closing <:+ s.rest) :
    ∃ r, s.pull = some r ∧ b.closing <:+ r.stream := by
  obtain ⟨c, cs, hc⟩ := List.exists_cons_of_ne_nil (by simp [closing] : b.closing ≠ [])
  have hproper := b.proper_closing
  rw [hc] at h hproper ⊢
  exact State.pullFrom_ahead (proper_cons.1 hproper).1 h s

/-- The block ends before what stands behind the switch, at one of the braces from there on. -/
theorem rest_early (hnot : ¬ b.BodyRead) {d : Option (Stmt Unit)}
    (h : recovering false (b.rest n) b.entry = .ok d r) :
    ∃ middle, d = some (.block (b.first ++ middle)) ∧ b.closing <:+ r.stream := by
  have hswitch := b.switchRest_rises hnot (n + 1)
  rw [recovering, entry_calm, rest] at h
  cases ho : switchRest (n + 1) (operandRules + b.room) b.value b.entry with
  | bad u => exact absurd ho (recovering_ne_bad _ _ _ _)
  | halt cause u =>
    rw [bind_of_halt ho] at h
    cases h
  | ok o u =>
    rw [ho] at hswitch
    rw [bind_of_ok ho] at h
    obtain ⟨others, v, hv, hend⟩ | ⟨cause, v, hv⟩ :=
      items_ends (n + 3) b.top.deeper.block u
    · have hothers := (risingStmt (n + 3)).items (c := b.top.deeper.block) rfl u
      rw [hv] at hothers
      rw [bind_of_ok hv] at h
      obtain ⟨hnoend, hahead⟩ := b.ahead_of_climbs (Climbs.trans hswitch hothers)
      obtain ⟨w, hw, hclosing⟩ := b.pull_closing hahead
      rw [bind_of_ok (expect_passes (hend.resolve_right hnoend) hw)] at h
      obtain ⟨rfl, rfl⟩ := Result.ok.inj h
      exact ⟨o.toList ++ others, rfl, hclosing⟩
    · rw [bind_of_halt hv] at h
      cases h

/-- If the arms come to the brace of the switch, what stands behind it belongs to the block. -/
theorem rest_complete (h : b.BodyRead) :
    ∃ as enough, ∀ n, enough ≤ n → ∃ r,
      recovering false (b.rest n) b.entry =
        .ok (some (.block (b.first ++ (.switch b.value as :: b.last)))) r ∧
      r.stream = [b.eof] := by
  obtain ⟨k, as, x, hx, hstream⟩ := h
  refine ⟨as, max k (rulesPerToken * b.after.length + 1), fun n hn => ?_⟩
  have hclosing := b.proper_closing
  have hbody := b.switchBody_of_group hx (by omega : k ≤ n + 1)
  -- the brace of the switch
  obtain ⟨hcurrent, hrest⟩ := List.cons.inj hstream
  have hmore : (x.followedBy b.closing).rest = b.closing := congrArg (· ++ b.closing) hrest
  obtain ⟨y, hy, hyclosing⟩ := pull_of_proper hmore (by simp [closing]) hclosing
  have hswitch : switchRest (n + 1) (operandRules + b.room) b.value b.entry =
      .ok (some (.switch b.value as)) y := by
    have hend : expect .switchEnd (x.followedBy b.closing) = .ok x.current y :=
      expect_passes (hcurrent ▸ b.hrightBrace) hy
    rw [switchRest, recovering, entry_calm, bind_of_ok hbody, bind_of_ok hend]
    rfl
  -- what stands behind it
  obtain ⟨z, hz, hzstream⟩ := items_from (c := b.top.deeper.block) (n := n + 3) b.hafter
    b.hlastRoom hyclosing (by simp [b.hright, b.heof]) b.hright (by omega)
  obtain ⟨hzcurrent, hzrest⟩ := List.cons.inj hzstream
  -- the last brace
  obtain ⟨r, hr, hrstream⟩ := pull_of_proper hzrest (by simp) (by simp [b.heof])
  refine ⟨r, ?_, hrstream⟩
  have hall : b.rest n b.entry =
      .ok (.block (b.first ++ (.switch b.value as :: b.last))) r := by
    rw [rest, bind_of_ok hswitch, bind_of_ok hz,
      bind_of_ok (expect_passes (hzcurrent ▸ b.hright) hr)]
    rfl
  rw [recovering, entry_calm, hall]

theorem reading_tokens : Between b.room b.tokens [] (reading b.tokens) := by
  refine .start ?_
  simp [State.start?, State.pull, State.pullFrom, reading, tokens, b.hleft]

theorem parse_of_declaration {st : Stmt Unit}
    (hd : declaration n b.top (reading b.tokens) = .ok (some st) r) (hr : r.stream = [b.eof]) :
    parse b.room b.tokens = .ok ⟨[st], r.reports⟩ := by
  have hend : (reading b.tokens).atEnd = false := by
    simp [State.atEnd, reading, tokens, b.hleft]
  have hempty : parse b.room ([] ++ [b.eof]) = .ok ⟨[], []⟩ :=
    parse_of_spelledBy b.heof .nil (Nat.zero_le _)
  rw [(b.reading_tokens.next hend hd).resume, hr]
  simp only [List.nil_append] at hempty
  rw [hempty]
  simp [Except.map, Parsed.after]

theorem oneBlock_of_bodyRead (h : b.BodyRead) : b.OneBlock := by
  obtain ⟨as, enough, hall⟩ := b.rest_complete h
  let n := max enough (rulesPerToken * b.tokens.length)
  obtain ⟨r, hr, hstream⟩ := hall n (Nat.le_max_left _ _)
  have hd : declaration (b.first.length + n + 7) b.top (reading b.tokens) =
      .ok (some (.block (b.first ++ [.switch b.value as] ++ b.last))) r := by
    rw [b.declaration_tokens (Nat.le_max_right _ _), hr]
    simp
  exact ⟨_, _, r, hd, hstream, b.parse_of_declaration hd hstream⟩

theorem early_of_not_bodyRead (hnot : ¬ b.BodyRead) {d : Option (Stmt Unit)}
    (hd : declaration n b.top (reading b.tokens) = .ok d r) :
    ∃ middle, d = some (.block (b.first ++ middle)) ∧ b.closing <:+ r.stream := by
  let m := max n (rulesPerToken * b.tokens.length)
  have hmore : declaration (b.first.length + m + 7) b.top (reading b.tokens) = .ok d r := by
    obtain ⟨u, hu⟩ | hsame :=
      (outlastedStmt (by omega : n ≤ b.first.length + m + 7)).declaration b.top (reading b.tokens)
    · cases hd.symm.trans hu
    · exact hsame.trans hd
  rw [b.declaration_tokens (Nat.le_max_right _ _)] at hmore
  exact b.rest_early hnot hmore

theorem bodyRead_of_spelledBy {as : Arms Unit} (h : (Clause.arms false 2 as).SpelledBy b.body)
    (hroom : as.rules ≤ operandRules + b.room) : b.BodyRead := by
  have hclose : Proper [b.rightBrace] := by simp [b.hrightBrace]
  have harms := clause_complete h (rulesPerToken * b.body.length + 3)
    (Context.top (operandRules + b.room)).deeper.block.deeper b.rightBrace [] rfl rfl hroom
    (Nat.le_refl _) hclose b.hrightBrace
  refine ⟨rulesPerToken * b.body.length + 3, as, reading [b.rightBrace], ?_, rfl⟩
  rw [switchBody, group, bind_of_ok (expect_reading b.hleftBrace (by simp)
    (proper_append.2 ⟨h.proper, hclose⟩)), harms]

theorem number_spelledBy {x : Float} (ht : t.kind = .number)
    (hx : readNumber? t.lexeme = some x) : ExprSpelledBy (.literal (.number x)) [t] :=
  (Phrase.SpelledBy.number ht hx).loosen (by decide)

theorem print_spelledBy {keyword semicolon : Token} {e : Expr Unit}
    (hkeyword : keyword.kind = .kwPrint) (hsemicolon : semicolon.kind = .semicolon)
    (he : ExprSpelledBy e [t]) :
    (Clause.list false 1 [.print e]).SpelledBy [keyword, t, semicolon] :=
  .cons (.plain (.nested (by decide) (.print hkeyword hsemicolon he))) .nil

/-- The tokens of `{ print 1; switch (2) { body } print 3; }`, the brace after the body being in
this column. -/
def ofBody (body : List Token) (column : Nat) (hbody : Balanced body)
    (hends : ∀ t ∈ body, t.kind ≠ .eof) : SwitchInBlock where
  room := 0
  first := [.print (.literal (.number ((readNumber? "1").get (by decide +kernel))))]
  value := .literal (.number ((readNumber? "2").get (by decide +kernel)))
  last := [.print (.literal (.number ((readNumber? "3").get (by decide +kernel))))]
  before := [⟨.kwPrint, "print", ⟨1, 3⟩⟩, ⟨.number, "1", ⟨1, 9⟩⟩, ⟨.semicolon, ";", ⟨1, 10⟩⟩]
  subject := [⟨.number, "2", ⟨1, 20⟩⟩]
  body := body
  after := [⟨.kwPrint, "print", ⟨1, column + 2⟩⟩, ⟨.number, "3", ⟨1, column + 8⟩⟩,
    ⟨.semicolon, ";", ⟨1, column + 9⟩⟩]
  left := ⟨.leftBrace, "\x7b", ⟨1, 1⟩⟩
  keyword := ⟨.kwSwitch, "switch", ⟨1, 12⟩⟩
  leftParen := ⟨.leftParen, "(", ⟨1, 19⟩⟩
  rightParen := ⟨.rightParen, ")", ⟨1, 21⟩⟩
  leftBrace := ⟨.leftBrace, "\x7b", ⟨1, 23⟩⟩
  rightBrace := ⟨.rightBrace, "\x7d", ⟨1, column⟩⟩
  right := ⟨.rightBrace, "\x7d", ⟨1, column + 11⟩⟩
  eof := ⟨.eof, "", ⟨1, column + 12⟩⟩
  hbefore := print_spelledBy rfl rfl (number_spelledBy rfl (Option.some_get _).symm)
  hsubject := number_spelledBy rfl (Option.some_get _).symm
  hafter := print_spelledBy rfl rfl (number_spelledBy rfl (Option.some_get _).symm)
  hfirstRoom := by simp [Stmt.rulesAll, Stmt.rules, Expr.rules, Level.rank, operandRules]
  hvalueRoom := by simp [Expr.rules, Level.rank, operandRules]
  hlastRoom := by simp [Stmt.rulesAll, Stmt.rules, Expr.rules, Level.rank, operandRules]
  hbody := hbody
  hends := hends
  hleft := rfl
  hkeyword := rfl
  hleftParen := rfl
  hrightParen := rfl
  hleftBrace := rfl
  hrightBrace := rfl
  hright := rfl
  heof := rfl

end SwitchInBlock

/-- A block of the top level with a switch in it is closed by its own brace just when the rule for
the arms comes to the brace of the switch, as it does if the arms have no errors. If it does not,
the block ends there or before, and what stands behind the switch is left to the top level. -/
theorem one_block_iff_body_read (b : SwitchInBlock) :
    (b.OneBlock ↔ b.BodyRead) ∧
    (∀ as, (Clause.arms false 2 as).SpelledBy b.body → as.rules ≤ operandRules + b.room →
      b.BodyRead) ∧
    (¬ b.BodyRead → ∀ n d r, declaration n b.top (reading b.tokens) = .ok d r →
      ∃ middle, d = some (.block (b.first ++ middle)) ∧ b.closing <:+ r.stream) := by
  refine ⟨⟨fun hone => ?_, b.oneBlock_of_bodyRead⟩, fun as => b.bodyRead_of_spelledBy,
    fun hnot n d r => b.early_of_not_bodyRead hnot⟩
  by_contra hnot
  obtain ⟨n, middle, r, hd, hstream, -⟩ := hone
  obtain ⟨-, -, hclosing⟩ := b.early_of_not_bodyRead hnot hd
  -- two tokens do not fit into one
  have hlength := hclosing.length_le
  simp [hstream, SwitchInBlock.closing] at hlength

/-- An error in a block inside of the switch is recovered from there. -/
theorem one_block_of_nested_error :
    ∃ b : SwitchInBlock, b.tokens = scan
      "\x7b print 1; switch (2) \x7b case 4: \x7b print ; \x7d \x7d print 3; \x7d" ∧
      b.BodyRead ∧ b.OneBlock := by
  let body : List Token := [⟨.kwCase, "case", ⟨1, 25⟩⟩, ⟨.number, "4", ⟨1, 30⟩⟩,
    ⟨.colon, ":", ⟨1, 31⟩⟩, ⟨.leftBrace, "\x7b", ⟨1, 33⟩⟩, ⟨.kwPrint, "print", ⟨1, 35⟩⟩,
    ⟨.semicolon, ";", ⟨1, 41⟩⟩, ⟨.rightBrace, "\x7d", ⟨1, 43⟩⟩]
  let b := SwitchInBlock.ofBody body 45 (by decide +kernel) (by decide +kernel)
  have hread : b.BodyRead := SwitchInBlock.bodyRead_of_readsBody (n := 200) (by decide +kernel)
  exact ⟨b, by decide +kernel, hread, (one_block_iff_body_read b).1.2 hread⟩

/-- The arm has no value: the brace of the switch closes the block, and the last brace is another
error. -/
theorem two_statements_of_missing_value :
    ∃ b : SwitchInBlock,
      b.tokens = scan "\x7b print 1; switch (2) \x7b case \x7d print 3; \x7d" ∧ ¬ b.OneBlock := by
  let b := SwitchInBlock.ofBody [⟨.kwCase, "case", ⟨1, 25⟩⟩] 30 (by decide) (by decide)
  refine ⟨b, by decide +kernel, ?_⟩
  rintro ⟨n, middle, r, -, -, hparse⟩
  have hlength : (parse b.room b.tokens).toOption.map (·.statements.length) = some 2 := by
    decide +kernel
  rw [hparse] at hlength
  cases hlength

end Scriptlet.Parse

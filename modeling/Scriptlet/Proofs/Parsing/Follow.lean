import Scriptlet.Proofs.Grammar

/-! Which tokens begin a phrase, which may follow it, and which it holds at all: what a parser that
looks one token ahead goes by. -/
namespace Scriptlet

open Parse Grammar

namespace Parse.Level

/-- Counts from the tightest level. -/
def rank : Level → Nat
  | primary => 0 | call => 1 | unary => 2 | factor => 3 | term => 4 | comparison => 5
  | equality => 6 | and => 7 | or => 8 | conditional => 9 | assignment => 10 | comma => 11

def all : List Level :=
  [comma, assignment, conditional, or, and, equality, comparison, term, factor, unary, call,
    primary]

/-- The tokens that make a longer expression of one that is complete on the level below. -/
def extensions : Level → List Kind
  | assignment => [.equal]
  | conditional => [.question]
  | call => [.leftParen]
  | level => level.operators

/-- The tokens that an expression of the level takes in, so that they never stand after one. -/
def followers (level : Level) : List Kind :=
  (all.filter fun l => l.rank ≤ level.rank).flatMap extensions

/-- What an expression of the level starts with. -/
def openers (level : Level) : List Kind :=
  [.leftParen, .identifier, .kwTrue, .kwFalse, .kwNil, .number, .string] ++
    if level.rank ≤ call.rank then [] else [.bang, .minus]

theorem rank_injective {level level' : Level} (h : level.rank = level'.rank) : level = level' := by
  revert h
  cases level <;> cases level' <;> decide

theorem rank_tighter {level : Level} (h : level ≠ primary) :
    level.tighter.rank + 1 = level.rank := by
  cases level <;> first | rfl | exact absurd rfl h

theorem followers_tighter {level : Level} {k : Kind} (h : k ∉ level.followers) :
    k ∉ level.tighter.followers := by
  have : level.tighter.followers ⊆ level.followers := by cases level <;> decide
  exact fun hk => h (this hk)

theorem extensions_follow {level : Level} {k : Kind} (h : k ∉ level.followers) :
    k ∉ level.extensions := by
  have : level.extensions ⊆ level.followers := by cases level <;> decide
  exact fun hk => h (this hk)

theorem operators_follow {level : Level} {k : Kind} (h : k ∈ level.operators) :
    k ∉ level.tighter.followers := by
  have : ∀ k ∈ level.operators, k ∉ level.tighter.followers := by cases level <;> decide
  exact this k h

theorem openers_tighter {level : Level} {k : Kind} (h : k ∈ level.tighter.openers) :
    k ∈ level.openers := by
  have : level.tighter.openers ⊆ level.openers := by cases level <;> decide
  exact this h

end Parse.Level

namespace Grammar

/-- None of the tokens is an error of the scanner. -/
def Proper (ts : List Token) : Prop := ∀ t ∈ ts, t.kind ≠ .error

@[simp] theorem proper_nil : Proper [] := by simp [Proper]

@[simp] theorem proper_cons {t : Token} {ts : List Token} :
    Proper (t :: ts) ↔ t.kind ≠ .error ∧ Proper ts := by simp [Proper]

@[simp] theorem proper_append {ts us : List Token} : Proper (ts ++ us) ↔ Proper ts ∧ Proper us := by
  simp only [Proper, List.mem_append]
  exact ⟨fun h => ⟨fun t ht => h t (.inl ht), fun t ht => h t (.inr ht)⟩,
    fun h t ht => ht.elim (h.1 t) (h.2 t)⟩

/-- The tokens begin with one of the kinds. -/
def Opens (kinds : List Kind) (ts : List Token) : Prop := ∃ t us, ts = t :: us ∧ t.kind ∈ kinds

theorem Opens.append {kinds : List Kind} {ts : List Token} (h : Opens kinds ts) (us : List Token) :
    Opens kinds (ts ++ us) := by
  obtain ⟨t, vs, rfl, ht⟩ := h
  exact ⟨t, vs ++ us, rfl, ht⟩

theorem Opens.mono {kinds kinds' : List Kind} {ts : List Token} (h : Opens kinds ts)
    (hk : ∀ k ∈ kinds, k ∈ kinds') : Opens kinds' ts := by
  obtain ⟨t, us, hts, ht⟩ := h
  exact ⟨t, us, hts, hk _ ht⟩

theorem Opens.length_pos {kinds : List Kind} {ts : List Token} (h : Opens kinds ts) :
    1 ≤ ts.length := by
  obtain ⟨t, us, rfl, -⟩ := h
  simp

namespace Phrase

theorem SpelledBy.loosen {inner outer : Level} {e : Expr Unit} {ts : List Token}
    (h : (Phrase.expr inner e).SpelledBy ts) (hrank : inner.rank ≤ outer.rank) :
    (Phrase.expr outer e).SpelledBy ts := by
  induction hk : outer.rank generalizing outer with
  | zero => exact Level.rank_injective (Nat.le_antisymm hrank (by omega)) ▸ h
  | succ k ih =>
    by_cases heq : inner = outer
    · exact heq ▸ h
    · have hbelow : outer ≠ .primary := by
        rintro rfl
        simp [Level.rank] at hk
      have hnext := Level.rank_tighter hbelow
      have hne : inner.rank ≠ outer.rank := fun h => heq (Level.rank_injective h)
      exact .tighter (ih (by omega) (by omega))

/-- What a phrase starts with; a list of no arguments starts with nothing. -/
def Starts : Phrase → List Token → Prop
  | .expr level _, ts => Opens level.openers ts
  | .arguments [], ts => ts = []
  | .arguments (_ :: _), ts => Opens Level.assignment.openers ts

theorem SpelledBy.starts {p : Phrase} {ts : List Token} (h : p.SpelledBy ts) : p.Starts ts := by
  induction h with
  | tighter _ ih => exact ih.mono fun _ => Level.openers_tighter
  | binary _ _ _ ih _ => exact ih.append _
  | assign hname => exact ⟨_, _, rfl, by simp [hname, Level.openers]⟩
  | conditional _ _ _ _ _ ih _ _ =>
    exact (ih.append _).mono fun _ => @Level.openers_tighter .conditional _
  | unary hop =>
    refine ⟨_, _, rfl, ?_⟩
    have : ∀ k ∈ [Kind.bang, .minus], k ∈ Level.unary.openers := by decide
    exact this _ hop
  | call _ _ _ _ _ ih _ => exact ih.append _
  | grouping hleft => exact ⟨_, _, rfl, by simp [hleft, Level.openers]⟩
  | reference h | kwTrue h | kwFalse h | kwNil h | number h _ | string h =>
    exact ⟨_, _, rfl, by simp [h, Level.openers]⟩
  | noArgument => rfl
  | oneArgument _ ih => exact ih
  | moreArguments _ _ _ ih _ => exact ih.append _

theorem SpelledBy.opens {level : Level} {e : Expr Unit} {ts : List Token}
    (h : (Phrase.expr level e).SpelledBy ts) : Opens level.openers ts := h.starts

theorem SpelledBy.proper {p : Phrase} {ts : List Token} (h : p.SpelledBy ts) : Proper ts := by
  induction h with
  | @binary level _ _ op _ _ hop _ _ ih ih' =>
    have : op.kind ≠ .error := by
      intro he
      cases level <;> simp [Level.operators, he] at hop
    simp [ih, ih', this]
  | unary hop _ ih =>
    refine proper_cons.2 ⟨fun he => ?_, ih⟩
    simp [he] at hop
  | _ => simp_all

end Phrase

theorem ParamsSpelledBy.proper {ps ts : List Token} (h : ParamsSpelledBy ps ts) : Proper ts := by
  induction h <;> simp_all

theorem OptionalSpelledBy.proper {o : Option (Expr Unit)} {ts : List Token}
    (h : OptionalSpelledBy o ts) : Proper ts := by
  cases h with
  | absent => simp
  | present he => exact he.proper

theorem VarSpelledBy.proper {s : Stmt Unit} {ts : List Token} (h : VarSpelledBy s ts) :
    Proper ts := by
  cases h with
  | plain => simp_all
  | initialized _ _ _ hinit => simp_all [hinit.proper]

theorem InitSpelledBy.proper {o : Option (Stmt Unit)} {ts : List Token}
    (h : InitSpelledBy o ts) : Proper ts := by
  cases h with
  | absent => simp_all
  | var _ hs => simp_all [hs.proper]
  | expression _ he => simp_all [he.proper]

namespace Clause

/-- What a statement starts with; a list declares variables and functions besides. -/
def openers : List Kind :=
  Level.comma.openers ++ [.kwPrint, .leftBrace, .kwIf, .kwSwitch, .kwWhile, .kwFor, .kwDo,
    .kwBreak, .kwContinue, .kwReturn]

/-- What a clause starts with, unless it is empty. -/
def Starts : Clause → List Token → Prop
  | .statement _ _ _ _, ts | .form _ _ _ _, ts => Opens openers ts
  | .declaration _ _ _, ts => Opens (.kwVar :: .kwFunction :: openers) ts
  | .list _ _ _, ts => ts = [] ∨ Opens (.kwVar :: .kwFunction :: openers) ts
  | .arms _ _ _, ts => ts = [] ∨ Opens [.kwCase, .kwDefault] ts

theorem SpelledBy.starts {c : Clause} {ts : List Token} (h : c.SpelledBy ts) : c.Starts ts := by
  induction h with
  | nested _ _ ih => exact ih
  | expression _ he => exact (he.opens.append _).mono fun _ => List.mem_append_left _
  | plain _ ih => exact ih.mono fun _ hk => List.mem_cons_of_mem _ (List.mem_cons_of_mem _ hk)
  | var h _ => exact ⟨_, _, rfl, by simp [h]⟩
  | function h _ _ _ _ _ _ _ _ _ => exact ⟨_, _, rfl, by simp [h]⟩
  | nil | noArm => exact .inl rfl
  | cons _ _ ih _ => exact .inr (ih.append _)
  | otherwise h _ _ _ => exact .inr ⟨_, _, rfl, by simp [h]⟩
  | case h _ _ _ _ _ _ => exact .inr ⟨_, _, rfl, by simp [h]⟩
  | exit h _ | again h _ | print h _ _ | give h _ _ => exact ⟨_, _, rfl, by simp [h, openers]⟩
  | block h _ _ _ | ifThen h _ _ _ _ _ | whileLoop h _ _ _ _ _ | switch h _ _ _ _ _ _ _
  | ifElse h _ _ _ _ _ _ _ _ | forLoop h _ _ _ _ _ _ _ _ | doLoop h _ _ _ _ _ _ _ =>
    exact ⟨_, _, rfl, by simp [h, openers]⟩

theorem SpelledBy.proper {c : Clause} {ts : List Token} (h : c.SpelledBy ts) : Proper ts := by
  induction h with
  | print _ _ he | expression _ he => simp_all [he.proper]
  | give _ _ hvalue => simp_all [hvalue.proper]
  | var _ hs => simp_all [hs.proper]
  | function _ _ _ _ _ _ _ _ hparams _ _ => simp_all [hparams.proper]
  | ifThen _ _ _ he _ _ | whileLoop _ _ _ he _ _ => simp_all [he.proper]
  | ifElse _ _ _ _ he _ _ _ _ => simp_all [he.proper]
  | switch _ _ _ _ _ he _ _ => simp_all [he.proper]
  | forLoop _ _ _ _ hinit hcondition hstep _ _ =>
    simp_all [hinit.proper, hcondition.proper, hstep.proper]
  | doLoop _ _ _ _ _ _ he _ => simp_all [he.proper]
  | case _ _ he _ _ _ _ => simp_all [he.proper]
  | _ => simp_all

end Clause
end Grammar
end Scriptlet

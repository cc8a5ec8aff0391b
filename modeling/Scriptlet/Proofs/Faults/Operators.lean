import Scriptlet.Proofs.Evaluation.Operators
import Scriptlet.Proofs.Parsing.Soundness
import Scriptlet.Proofs.Scoping.Visits
import Scriptlet.Resolve.Address

/-! The operators of a program text are operators that an evaluation knows, so that an operator ends
one with a fault only over the remainder of an infinity. -/
namespace Scriptlet

open Grammar

variable {ρ : Type}

mutual

/-- All operators in the expression are such as the grammar has. -/
def Expr.Operable : Expr ρ → Prop
  | .assign _ value _ => value.Operable
  | .binary left operator right =>
    (∃ level : Parse.Level, operator.kind ∈ level.operators) ∧ left.Operable ∧ right.Operable
  | .call callee _ arguments => callee.Operable ∧ Expr.AllOperable arguments
  | .conditional condition thenBranch elseBranch =>
    condition.Operable ∧ thenBranch.Operable ∧ elseBranch.Operable
  | .grouping inner => inner.Operable
  | .literal _ | .reference _ _ => True
  | .unary operator right => operator.kind ∈ [Kind.bang, .minus] ∧ right.Operable

def Expr.AllOperable : List (Expr ρ) → Prop
  | [] => True
  | e :: es => e.Operable ∧ Expr.AllOperable es

end

mutual

def Stmt.Operable : Stmt ρ → Prop
  | .block body | .function _ _ body => Stmt.AllOperable body
  | .jump _ _ => True
  | .doLoop body condition => body.Operable ∧ condition.Operable
  | .expression value | .print value => value.Operable
  | .ifThen condition body | .loop condition body => condition.Operable ∧ body.Operable
  | .ifElse condition first second | .loopStep condition first second =>
    condition.Operable ∧ first.Operable ∧ second.Operable
  | .give _ value | .var _ value => ∀ e ∈ value, e.Operable
  | .switch subject arms => subject.Operable ∧ arms.Operable

def Stmt.AllOperable : List (Stmt ρ) → Prop
  | [] => True
  | s :: ss => s.Operable ∧ Stmt.AllOperable ss

def Arms.Operable : Arms ρ → Prop
  | .done => True
  | .otherwise body => body.Operable
  | .case condition body rest => condition.Operable ∧ body.Operable ∧ rest.Operable

end

section Resolved

mutual

theorem Expr.operable_resolve {scopes : Scopes} : (e : Expr ρ) → e.Operable →
    (e.resolve scopes).Operable
  | .assign _ value _, h => value.operable_resolve h
  | .binary left _ right, h => ⟨h.1, left.operable_resolve h.2.1, right.operable_resolve h.2.2⟩
  | .call callee _ arguments, h =>
    ⟨callee.operable_resolve h.1, Expr.operable_resolveAll arguments h.2⟩
  | .conditional condition yes no, h =>
    ⟨condition.operable_resolve h.1, yes.operable_resolve h.2.1, no.operable_resolve h.2.2⟩
  | .grouping inner, h => inner.operable_resolve h
  | .literal _, _ | .reference _ _, _ => trivial
  | .unary _ right, h => ⟨h.1, right.operable_resolve h.2⟩

theorem Expr.operable_resolveAll {scopes : Scopes} : (es : List (Expr ρ)) → Expr.AllOperable es →
    Expr.AllOperable (Expr.resolveAll scopes es)
  | [], _ => trivial
  | e :: es, h => ⟨e.operable_resolve h.1, Expr.operable_resolveAll es h.2⟩

end

theorem Expr.operable_map {scopes : Scopes} {value : Option (Expr ρ)}
    (h : ∀ e ∈ value, e.Operable) : ∀ e ∈ value.map (Expr.resolve scopes), e.Operable := by
  intro e he
  obtain ⟨e, hmem, rfl⟩ := Option.map_eq_some_iff.1 he
  exact e.operable_resolve (h e hmem)

mutual

theorem Stmt.operable_resolve {scopes : Scopes} : (s : Stmt ρ) → s.Operable →
    (s.resolve scopes).Operable
  | .block body, h | .function _ _ body, h => Stmt.operable_resolveAll body h
  | .jump _ _, _ => trivial
  | .doLoop body condition, h => ⟨body.operable_resolve h.1, condition.operable_resolve h.2⟩
  | .expression value, h | .print value, h => value.operable_resolve h
  | .ifThen condition body, h | .loop condition body, h =>
    ⟨condition.operable_resolve h.1, body.operable_resolve h.2⟩
  | .ifElse condition first second, h | .loopStep condition first second, h =>
    ⟨condition.operable_resolve h.1, first.operable_resolve h.2.1, second.operable_resolve h.2.2⟩
  | .give _ _, h | .var _ _, h => Expr.operable_map h
  | .switch subject arms, h => ⟨subject.operable_resolve h.1, arms.operable_resolve h.2⟩

theorem Stmt.operable_resolveAll {scopes : Scopes} : (ss : List (Stmt ρ)) → Stmt.AllOperable ss →
    Stmt.AllOperable (Stmt.resolveAll scopes ss)
  | [], _ => trivial
  | s :: ss, h => ⟨s.operable_resolve h.1, Stmt.operable_resolveAll ss h.2⟩

theorem Arms.operable_resolve {scopes : Scopes} : (as : Arms ρ) → as.Operable →
    (as.resolve scopes).Operable
  | .done, _ => trivial
  | .otherwise body, h => body.operable_resolve h
  | .case condition body rest, h =>
    ⟨condition.operable_resolve h.1, body.operable_resolve h.2.1, rest.operable_resolve h.2.2⟩

end

end Resolved

section Spelled

variable {ts : List Token}

def Grammar.Phrase.Operable : Phrase → Prop
  | .expr _ e => e.Operable
  | .arguments es => Expr.AllOperable es

theorem Grammar.Phrase.SpelledBy.operable {p : Phrase} (h : p.SpelledBy ts) : p.Operable := by
  induction h with
  | tighter _ ih | assign _ _ _ ih | grouping _ _ _ ih => exact ih
  | binary hop _ _ ihleft ihright => exact ⟨⟨_, hop⟩, ihleft, ihright⟩
  | conditional _ _ _ _ _ ihcondition ihyes ihno => exact ⟨ihcondition, ihyes, ihno⟩
  | unary hop _ ih => exact ⟨hop, ih⟩
  | call _ _ _ _ _ ihcallee ihargs => exact ⟨ihcallee, ihargs⟩
  | reference | kwTrue | kwFalse | kwNil | number | string | noArgument => trivial
  | oneArgument _ ih => exact ⟨ih, trivial⟩
  | moreArguments _ _ _ ihe ihes => exact ⟨ihe, ihes⟩

theorem Grammar.operable_expr {e : Expr Unit} (h : ExprSpelledBy e ts) : e.Operable :=
  Phrase.SpelledBy.operable h

theorem Grammar.operable_optional {value : Option (Expr Unit)} (h : OptionalSpelledBy value ts) :
    ∀ e ∈ value, e.Operable := by
  cases h with
  | absent => simp
  | present he => simpa using operable_expr he

theorem Grammar.operable_var {s : Stmt Unit} (h : VarSpelledBy s ts) : s.Operable := by
  cases h with
  | plain => simp [Stmt.Operable]
  | initialized _ _ _ hinit => simpa [Stmt.Operable] using operable_expr hinit

theorem Grammar.operable_for {init : Option (Stmt Unit)} {condition step : Option (Expr Unit)}
    {body : Stmt Unit} {us vs : List Token} (hinit : InitSpelledBy init ts)
    (hcondition : OptionalSpelledBy condition us) (hstep : OptionalSpelledBy step vs)
    (hbody : body.Operable) : (forTree init condition step body).Operable := by
  have hfirst : (condition.getD (.literal (.bool true))).Operable := by
    cases condition with
    | none => trivial
    | some e => exact operable_optional hcondition e rfl
  have hloop : (forTree none condition step body).Operable := by
    cases step with
    | none => exact ⟨hfirst, hbody⟩
    | some e => exact ⟨hfirst, hbody, operable_optional hstep e rfl⟩
  cases hinit with
  | absent => exact hloop
  | var _ hs => exact ⟨operable_var hs, hloop, trivial⟩
  | expression _ he => exact ⟨operable_expr he, hloop, trivial⟩

def Grammar.Clause.Operable : Clause → Prop
  | .statement _ _ _ s | .form _ _ _ s | .declaration _ _ s => s.Operable
  | .list _ _ ss => Stmt.AllOperable ss
  | .arms _ _ as => as.Operable

theorem Grammar.Clause.SpelledBy.operable {c : Clause} (h : c.SpelledBy ts) : c.Operable := by
  induction h with
  | nested _ _ ih | block _ _ _ ih | plain _ ih | function _ _ _ _ _ _ _ _ _ _ ih
  | otherwise _ _ _ ih => exact ih
  | print _ _ he | expression _ he => exact operable_expr he
  | ifThen _ _ _ hcondition _ ih | whileLoop _ _ _ hcondition _ ih =>
    exact ⟨operable_expr hcondition, ih⟩
  | ifElse _ _ _ _ hcondition _ _ ihyes ihno => exact ⟨operable_expr hcondition, ihyes, ihno⟩
  | switch _ _ _ _ _ hsubject _ ih => exact ⟨operable_expr hsubject, ih⟩
  | forLoop _ _ _ _ hinit hcondition hstep _ ih =>
    exact operable_for hinit hcondition hstep ih
  | doLoop _ _ _ _ _ _ hcondition ih => exact ⟨ih, operable_expr hcondition⟩
  | exit | again | nil | noArm => trivial
  | give _ _ hvalue => exact operable_optional hvalue
  | var _ hs => exact operable_var hs
  | cons _ _ ihs ihss => exact ⟨ihs, ihss⟩
  | case _ _ hcondition _ _ ihbody ihrest => exact ⟨operable_expr hcondition, ihbody, ihrest⟩

/-- The program of a text has no other operators than the grammar. -/
theorem parsed_operable {tokens : List Token} {program : List (Stmt Unit)}
    (hparse : parse room tokens = .ok ⟨program, []⟩) : Stmt.AllOperable (resolve program) := by
  obtain ⟨ts, eof, rest, -, -, hspelled⟩ := Parse.parse_reads hparse
  have hoperable : Stmt.AllOperable program := Clause.SpelledBy.operable hspelled
  exact Stmt.operable_resolveAll program hoperable

end Spelled

section Evaluated

variable {starts : Place → Task → Prop} {p : Place} {scopes : Scopes}

namespace Task

/-- The piece of the program has no other operators than the grammar. -/
def Operable : Task → Prop
  | expr _ _ e _ => e.Operable
  | exprs _ _ es _ => Expr.AllOperable es
  | call .. => True
  | stmt _ _ s _ => s.Operable
  | stmts _ _ ss _ | program _ _ ss _ => Stmt.AllOperable ss
  | rounds _ _ condition body step _ =>
    condition.Operable ∧ body.Operable ∧ ∀ s ∈ step, s.Operable
  | doRounds _ _ body condition _ => body.Operable ∧ condition.Operable
  | arms _ _ _ as _ => as.Operable

theorem Inside.operable {path : List Part} {t t' : Task} (hin : t.Inside path t')
    (h : t.Operable) : t'.Operable := by
  cases hin with
  | call => trivial
  | grouping | assign | block | doLoop | expression | print | otherwise | nextRound | nextStep
  | doRound => exact h
  | unary => exact h.2
  | condition | ifCondition | elseCondition | loopCondition | armCondition | callee | subject
  | argument | first | topFirst | doBody => exact h.1
  | yes | thenBranch | armBody | loopBody | left => exact h.2.1
  | no | elseBranch | nextArm | right => exact h.2.2
  | ifThen | arguments | arms | moreArguments | others | topOthers | doCondition => exact h.2
  | give | initializer => exact h _ rfl
  | loop => exact ⟨h.1, h.2, by simp⟩
  | loopStep => exact ⟨h.1, h.2.1, fun _ hstep => Option.mem_some.1 hstep ▸ h.2.2⟩
  | step => exact h.2.2 _ rfl

theorem Enters.operable {t t' d : Task} {f : Closure} {scope : Scope} {m : Machine}
    (hbody : t.Enters f scope t') (hmakes : d.Makes f m) (h : d.Operable) : t'.Operable := by
  cases hmakes with
  | intro =>
    cases hbody with
    | intro => exact h

end Task

theorem Located.operable (hstart : ∀ p t, starts p t → t.Operable) {t : Task}
    (h : Located starts p scopes t) : t.Operable := by
  induction h with
  | start h => exact hstart _ _ h
  | inside _ _ hin ih => exact hin.operable ih
  | body _ hbody _ hmakes _ _ ihd => exact hbody.operable hmakes ihd

end Evaluated

variable {operator : Token} {l r : Value} {f : Fault}

theorem unary_ne_fault (hkind : operator.kind ∈ [Kind.bang, .minus]) :
    unary operator r ≠ .error (.fault f) := by
  intro h
  have hmade := turned_unary operator r
  rw [h] at hmade
  cases hmade with
  | unknown hk => exact hk hkind

/-- An operator of the grammar other than logic, which does not evaluate both operands, has a result
or an error of the program, unless it is the remainder of an infinity. -/
theorem binary_eq_fault {level : Parse.Level} (hkind : operator.kind ∈ level.operators)
    (hand : operator.kind ≠ .and) (hor : operator.kind ≠ .or)
    (h : binary operator l r = .error (.fault f)) :
    f = .infiniteRemainder ∧ operator.kind = .percent ∧ ∃ x y, l = .number x ∧ r = .number y ∧
      x.isInf = true ∧ (y == 0.0) = false ∧ y.isNaN = false := by
  have hmade := combined_binary operator l r
  rw [h] at hmade
  cases hmade with
  | infinite hpercent hx hzero hnan => exact ⟨rfl, hpercent, _, _, rfl, rfl, hx, hzero, hnan⟩
  | unknown hk => exact ((hk level hkind).elim hand hor).elim

end Scriptlet

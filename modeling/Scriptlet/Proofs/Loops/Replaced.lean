import Scriptlet.Proofs.Braces.Trees
import Scriptlet.Proofs.Grammar

/-! One statement of a program replaced by another one; in particular, a loop with a step by a loop
that has the step at the end of its body. -/
namespace Scriptlet

variable {ρ : Type}

mutual

/-- One occurrence of `old` in the first statement has been replaced by `new`. -/
inductive Stmt.Replaced (old new : Stmt ρ) : Stmt ρ → Stmt ρ → Prop where
  | here : Stmt.Replaced old new old new
  | block {body body' : List (Stmt ρ)} (h : Stmt.AllReplaced old new body body') :
    Stmt.Replaced old new (.block body) (.block body')
  | doLoop {body body' : Stmt ρ} (h : Stmt.Replaced old new body body') (condition : Expr ρ) :
    Stmt.Replaced old new (.doLoop body condition) (.doLoop body' condition)
  | function (name : Token) (params : List Token) {body body' : List (Stmt ρ)}
    (h : Stmt.AllReplaced old new body body') :
    Stmt.Replaced old new (.function name params body) (.function name params body')
  | ifThen (condition : Expr ρ) {yes yes' : Stmt ρ} (h : Stmt.Replaced old new yes yes') :
    Stmt.Replaced old new (.ifThen condition yes) (.ifThen condition yes')
  | thenBranch (condition : Expr ρ) {yes yes' : Stmt ρ} (h : Stmt.Replaced old new yes yes')
    (no : Stmt ρ) :
    Stmt.Replaced old new (.ifElse condition yes no) (.ifElse condition yes' no)
  | elseBranch (condition : Expr ρ) (yes : Stmt ρ) {no no' : Stmt ρ}
    (h : Stmt.Replaced old new no no') :
    Stmt.Replaced old new (.ifElse condition yes no) (.ifElse condition yes no')
  | switch (subject : Expr ρ) {arms arms' : Arms ρ} (h : Arms.Replaced old new arms arms') :
    Stmt.Replaced old new (.switch subject arms) (.switch subject arms')
  | loop (condition : Expr ρ) {body body' : Stmt ρ} (h : Stmt.Replaced old new body body') :
    Stmt.Replaced old new (.loop condition body) (.loop condition body')
  | steppedBody (condition : Expr ρ) {body body' : Stmt ρ} (h : Stmt.Replaced old new body body')
    (step : Stmt ρ) :
    Stmt.Replaced old new (.loopStep condition body step) (.loopStep condition body' step)
  | step (condition : Expr ρ) (body : Stmt ρ) {step step' : Stmt ρ}
    (h : Stmt.Replaced old new step step') :
    Stmt.Replaced old new (.loopStep condition body step) (.loopStep condition body step')

inductive Stmt.AllReplaced (old new : Stmt ρ) : List (Stmt ρ) → List (Stmt ρ) → Prop where
  | head {s s' : Stmt ρ} (h : Stmt.Replaced old new s s') (ss : List (Stmt ρ)) :
    Stmt.AllReplaced old new (s :: ss) (s' :: ss)
  | tail (s : Stmt ρ) {ss ss' : List (Stmt ρ)} (h : Stmt.AllReplaced old new ss ss') :
    Stmt.AllReplaced old new (s :: ss) (s :: ss')

inductive Arms.Replaced (old new : Stmt ρ) : Arms ρ → Arms ρ → Prop where
  | otherwise {body body' : Stmt ρ} (h : Stmt.Replaced old new body body') :
    Arms.Replaced old new (.otherwise body) (.otherwise body')
  | body (condition : Expr ρ) {body body' : Stmt ρ} (h : Stmt.Replaced old new body body')
    (rest : Arms ρ) : Arms.Replaced old new (.case condition body rest) (.case condition body' rest)
  | rest (condition : Expr ρ) (body : Stmt ρ) {rest rest' : Arms ρ}
    (h : Arms.Replaced old new rest rest') :
    Arms.Replaced old new (.case condition body rest) (.case condition body rest')

end

mutual

/-- All around the statement is left as it is. -/
theorem Stmt.Replaced.recast {old new : Stmt ρ} (hnew : old.RecastInside new) :
    {s s' : Stmt ρ} → Stmt.Replaced old new s s' → s.RecastInside s'
  | _, _, .here => hnew
  | _, _, .block h => .block (h.recast hnew)
  | _, _, .doLoop h condition => .doLoop (.inside (h.recast hnew)) condition
  | _, _, .function name params h => .function name params (h.recast hnew)
  | _, _, .ifThen condition h => .ifThen condition (.inside (h.recast hnew))
  | _, _, .thenBranch condition h no => .ifElse condition (.inside (h.recast hnew)) (.refl no)
  | _, _, .elseBranch condition yes h => .ifElse condition (.refl yes) (.inside (h.recast hnew))
  | _, _, .switch subject h => .switch subject (h.recast hnew)
  | _, _, .loop condition h => .loop condition (.inside (h.recast hnew))
  | _, _, .steppedBody condition h step =>
    .loopStep condition (.inside (h.recast hnew)) (Stmt.BracedInside.refl step).recast
  | _, _, .step condition body h => .loopStep condition (.refl body) (h.recast hnew)

theorem Stmt.AllReplaced.recast {old new : Stmt ρ} (hnew : old.RecastInside new) :
    {ss ss' : List (Stmt ρ)} → Stmt.AllReplaced old new ss ss' → Stmt.AllRecast ss ss'
  | _, _, .head h ss => .cons (.inside (h.recast hnew)) (.refl ss)
  | _, _, .tail s h => .cons (.refl s) (h.recast hnew)

theorem Arms.Replaced.recast {old new : Stmt ρ} (hnew : old.RecastInside new) :
    {as as' : Arms ρ} → Arms.Replaced old new as as' → as.Recast as'
  | _, _, .otherwise h => .otherwise (.inside (h.recast hnew))
  | _, _, .body condition h rest => .case condition (.inside (h.recast hnew)) (.refl rest)
  | _, _, .rest condition body h => .case condition (.refl body) (h.recast hnew)

end

/-! The steps of loops in parsed programs are expressions. -/

namespace Grammar

/-- Whatever loop with a step stands in the statement, its step is an expression. -/
def StepsIn (s : Stmt Unit) : Prop :=
  ∀ condition body step new s', Stmt.Replaced (.loopStep condition body step) new s s' →
    ∃ e, step = .expression e

/-- The same for all that the clause is about. -/
def Clause.Steps : Clause → Prop
  | .statement _ _ _ s | .form _ _ _ s | .declaration _ _ s => StepsIn s
  | .list _ _ ss => ∀ condition body step new ss',
    Stmt.AllReplaced (.loopStep condition body step) new ss ss' → ∃ e, step = .expression e
  | .arms _ _ as => ∀ condition body step new as',
    Arms.Replaced (.loopStep condition body step) new as as' → ∃ e, step = .expression e

variable {ts : List Token} {s body : Stmt Unit}

theorem VarSpelledBy.steps (h : VarSpelledBy s ts) : StepsIn s := by
  intro condition body step new s' hreplaced
  cases h <;> cases hreplaced

theorem InitSpelledBy.steps (h : InitSpelledBy (some s) ts) : StepsIn s := by
  cases h with
  | var _ hs => exact hs.steps
  | expression =>
    intro condition body step new s' hreplaced
    cases hreplaced

theorem steps_forTree {init : Option (Stmt Unit)} {condition step : Option (Expr Unit)}
    (hinit : InitSpelledBy init ts) (hbody : StepsIn body) :
    StepsIn (forTree init condition step body) := by
  have hloop : StepsIn (forTree none condition step body) := by
    intro c b i new s' h
    cases step with
    | none => cases h with
      | loop _ h => exact hbody c b i new _ h
    | some e => cases h with
      | here => exact ⟨e, rfl⟩
      | steppedBody _ h _ => exact hbody c b i new _ h
      | step _ _ h => cases h
  cases init with
  | none => exact hloop
  | some s =>
    intro c b i new s' h
    cases h with
    | block h => cases h with
      | head h _ => exact hinit.steps c b i new _ h
      | tail _ h => cases h with
        | head h _ => exact hloop c b i new _ h
        | tail _ h => cases h

theorem Clause.SpelledBy.steps {c : Clause} (h : c.SpelledBy ts) : c.Steps := by
  induction h with
  | nested _ _ ih | plain _ ih => exact ih
  | forLoop _ _ _ _ hinit _ _ _ ih => exact steps_forTree hinit ih
  | var _ hs => exact hs.steps
  | print | exit | again | give | expression | nil | noArm =>
    intro condition body step new s' h
    cases h
  | block _ _ _ ih =>
    intro condition body step new s' h
    cases h with
    | block h => exact ih _ _ _ _ _ h
  | function _ _ _ _ _ _ _ _ _ _ ih =>
    intro condition body step new s' h
    cases h with
    | function _ _ h => exact ih _ _ _ _ _ h
  | ifThen _ _ _ _ _ ih =>
    intro condition body step new s' h
    cases h with
    | ifThen _ h => exact ih _ _ _ _ _ h
  | ifElse _ _ _ _ _ _ _ ihyes ihno =>
    intro condition body step new s' h
    cases h with
    | thenBranch _ h => exact ihyes _ _ _ _ _ h
    | elseBranch _ _ h => exact ihno _ _ _ _ _ h
  | switch _ _ _ _ _ _ _ ih =>
    intro condition body step new s' h
    cases h with
    | switch _ h => exact ih _ _ _ _ _ h
  | whileLoop _ _ _ _ _ ih =>
    intro condition body step new s' h
    cases h with
    | loop _ h => exact ih _ _ _ _ _ h
  | doLoop _ _ _ _ _ _ _ ih =>
    intro condition body step new s' h
    cases h with
    | doLoop h => exact ih _ _ _ _ _ h
  | cons _ _ ihs ihss =>
    intro condition body step new ss' h
    cases h with
    | head h => exact ihs _ _ _ _ _ h
    | tail _ h => exact ihss _ _ _ _ _ h
  | otherwise _ _ _ ih =>
    intro condition body step new as' h
    cases h with
    | otherwise h => exact ih _ _ _ _ _ h
  | case _ _ _ _ _ ihbody ihrest =>
    intro condition body step new as' h
    cases h with
    | body _ h => exact ihbody _ _ _ _ _ h
    | rest _ _ h => exact ihrest _ _ _ _ _ h

end Grammar
end Scriptlet

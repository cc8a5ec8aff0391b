import Scriptlet.Proofs.Parsing.Soundness
import Scriptlet.Resolve.Address
import Scriptlet.Resolve.Check

/-! What resolving a program without errors gives: every address is the one that the scopes around
the use ask for, and no declaration clashes with another one of its scope. -/
namespace Scriptlet

open Grammar

mutual

/-- The addresses in the expression are right for these scopes around it, and none of its variables
is read before it has a value. -/
def Expr.Scoped (scopes : Scopes) : Expr Address → Prop
  | .assign name value address => address = scopes.address name ∧ value.Scoped scopes
  | .binary left _ right => left.Scoped scopes ∧ right.Scoped scopes
  | .call callee _ arguments => callee.Scoped scopes ∧ Expr.AllScoped scopes arguments
  | .conditional condition thenBranch elseBranch =>
    condition.Scoped scopes ∧ thenBranch.Scoped scopes ∧ elseBranch.Scoped scopes
  | .grouping inner => inner.Scoped scopes
  | .literal _ => True
  | .unary _ right => right.Scoped scopes
  | .reference name address => address = scopes.address name ∧ scopes.isPending name = false

def Expr.AllScoped (scopes : Scopes) : List (Expr Address) → Prop
  | [] => True
  | e :: es => e.Scoped scopes ∧ Expr.AllScoped scopes es

end

mutual

/-- A statement that is not `listed` does not declare anything in the scope it stands in. -/
def Stmt.Scoped (scopes : Scopes) (listed : Bool) : Stmt Address → Prop
  | .block body => Stmt.AllScoped ([] :: scopes) body
  | .jump _ _ => True
  | .doLoop body condition => body.Scoped scopes false ∧ condition.Scoped scopes
  | .expression value | .print value => value.Scoped scopes
  | .function name params body =>
    listed = true ∧ scopes.clashes name = false ∧ (params.map Token.lexeme).Nodup ∧
      Stmt.AllScoped ((scopes.define name).enter params) body
  | .ifThen condition thenBranch => condition.Scoped scopes ∧ thenBranch.Scoped scopes false
  | .ifElse condition thenBranch elseBranch =>
    condition.Scoped scopes ∧ thenBranch.Scoped scopes false ∧ elseBranch.Scoped scopes false
  | .give _ value => ∀ e ∈ value, e.Scoped scopes
  | .switch subject arms => subject.Scoped scopes ∧ arms.Scoped scopes
  | .var name init =>
    listed = true ∧ scopes.clashes name = false ∧ ∀ e ∈ init, e.Scoped (scopes.declare name)
  | .loop condition body => condition.Scoped scopes ∧ body.Scoped scopes false
  | .loopStep condition body step =>
    condition.Scoped scopes ∧ body.Scoped scopes false ∧ step.Scoped scopes false

/-- Each statement of a list sees what those before it declare. -/
def Stmt.AllScoped (scopes : Scopes) : List (Stmt Address) → Prop
  | [] => True
  | s :: ss => s.Scoped scopes true ∧ Stmt.AllScoped (s.declare scopes) ss

def Arms.Scoped (scopes : Scopes) : Arms Address → Prop
  | .done => True
  | .otherwise body => body.Scoped scopes false
  | .case condition body rest =>
    condition.Scoped scopes ∧ body.Scoped scopes false ∧ rest.Scoped scopes

end

variable {scopes : Scopes}

@[simp] theorem reportIf_eq_nil {bad : Bool} {token : Token} {cause : ScopeError} :
    reportIf bad token cause = [] ↔ bad = false := by
  cases bad <;> simp [reportIf]

theorem Stmt.Scoped.listed {s : Stmt Address} {listed : Bool} (h : s.Scoped scopes listed) :
    s.Scoped scopes true := by
  cases s with
  | function | var => exact ⟨rfl, h.2⟩
  | _ => exact h

mutual

theorem Expr.resolve_scoped : (e : Expr Unit) → e.check scopes = [] →
    (e.resolve scopes).Scoped scopes
  | .assign _ value _, h => ⟨rfl, value.resolve_scoped h⟩
  | .binary left _ right, h => by
    obtain ⟨hleft, hright⟩ := List.append_eq_nil_iff.1 h
    exact ⟨left.resolve_scoped hleft, right.resolve_scoped hright⟩
  | .call callee _ arguments, h => by
    obtain ⟨hcallee, harguments⟩ := List.append_eq_nil_iff.1 h
    exact ⟨callee.resolve_scoped hcallee, Expr.resolveAll_scoped arguments harguments⟩
  | .conditional condition yes no, h => by
    obtain ⟨hboth, hno⟩ := List.append_eq_nil_iff.1 h
    obtain ⟨hcondition, hyes⟩ := List.append_eq_nil_iff.1 hboth
    exact ⟨condition.resolve_scoped hcondition, yes.resolve_scoped hyes, no.resolve_scoped hno⟩
  | .grouping inner, h => inner.resolve_scoped h
  | .literal _, _ => trivial
  | .unary _ right, h => right.resolve_scoped h
  | .reference _ _, h => ⟨rfl, reportIf_eq_nil.1 h⟩

theorem Expr.resolveAll_scoped : (es : List (Expr Unit)) → Expr.checkAll scopes es = [] →
    Expr.AllScoped scopes (Expr.resolveAll scopes es)
  | [], _ => trivial
  | e :: es, h => by
    obtain ⟨he, hes⟩ := List.append_eq_nil_iff.1 h
    exact ⟨e.resolve_scoped he, Expr.resolveAll_scoped es hes⟩

end

mutual

/-- What a statement declares does not depend on what its uses are marked with. -/
theorem Stmt.declare_resolve {ρ : Type} {inner outer : Scopes} : (s : Stmt ρ) →
    (s.resolve inner).declare outer = s.declare outer
  | .var _ _ | .function _ _ _ | .block _ | .jump _ _ | .expression _ | .print _ | .give _ _ => rfl
  | .ifThen _ body | .loop _ body | .doLoop body _ => body.declare_resolve
  | .ifElse _ first second | .loopStep _ first second => by
    simp only [Stmt.resolve, Stmt.declare, first.declare_resolve, second.declare_resolve]
  | .switch _ arms => arms.declare_resolve

theorem Arms.declare_resolve {ρ : Type} {inner outer : Scopes} : (as : Arms ρ) →
    (as.resolve inner).declare outer = as.declare outer
  | .done => rfl
  | .otherwise body => body.declare_resolve
  | .case _ body rest => by
    simp only [Arms.resolve, Arms.declare, body.declare_resolve, rest.declare_resolve]

end

theorem Names.binds_cons (name z : String) (b : Bool) (names : Names) :
    Names.binds ((name, b) :: names) z = (z == name || names.binds z) := by
  unfold Names.binds
  rw [List.lookup_cons]
  cases z == name <;> rfl

theorem checkParams_nodup {params : List Token} {names : Names} {outer : Scopes}
    (h : Scopes.checkParams (names :: outer) params = []) :
    (params.map Token.lexeme).Nodup ∧ ∀ p ∈ params, names.binds p.lexeme = false := by
  induction params generalizing names with
  | nil => simp
  | cons p ps ih =>
    obtain ⟨hp, hps⟩ := List.append_eq_nil_iff.1 h
    obtain ⟨hnodup, hfresh⟩ := ih hps
    have hbinds : names.binds p.lexeme = false := reportIf_eq_nil.1 hp
    have hother (q : Token) (hq : q ∈ ps) :
        q.lexeme ≠ p.lexeme ∧ names.binds q.lexeme = false := by
      have hq := hfresh q hq
      rw [Names.binds_cons, Bool.or_eq_false_iff] at hq
      exact ⟨by simpa using hq.1, hq.2⟩
    refine ⟨?_, ?_⟩
    · simp only [List.map_cons, List.nodup_cons, List.mem_map, not_exists, not_and]
      exact ⟨fun q hq => (hother q hq).1, hnodup⟩
    · intro q hq
      rcases List.mem_cons.1 hq with rfl | hq
      · exact hbinds
      · exact (hother q hq).2

/-- A clause that passes the checks is resolved as it should be. -/
def Grammar.Clause.Resolvable : Clause → Prop
  | .statement _ _ _ s | .form _ _ _ s =>
    (∀ scopes : Scopes, s.declare scopes = scopes) ∧
      ∀ c scopes, s.check c scopes = [] → (s.resolve scopes).Scoped scopes false
  | .declaration _ _ s => ∀ c scopes, s.check c scopes = [] → (s.resolve scopes).Scoped scopes true
  | .list _ _ ss => ∀ c scopes, Stmt.checkAll c scopes ss = [] →
    Stmt.AllScoped scopes (Stmt.resolveAll scopes ss)
  | .arms _ _ as =>
    (∀ scopes : Scopes, as.declare scopes = scopes) ∧
      ∀ c scopes, as.check c scopes = [] → (as.resolve scopes).Scoped scopes

theorem resolvable_var {s : Stmt Unit} {ts : List Token} (h : VarSpelledBy s ts) {c : Surroundings}
    (hcheck : s.check c scopes = []) : (s.resolve scopes).Scoped scopes true := by
  cases h with
  | @plain name =>
    obtain ⟨hclash, -⟩ := List.append_eq_nil_iff.1 hcheck
    exact ⟨rfl, reportIf_eq_nil.1 hclash, by simp⟩
  | @initialized name _ _ init =>
    obtain ⟨hclash, hinit⟩ := List.append_eq_nil_iff.1 hcheck
    refine ⟨rfl, reportIf_eq_nil.1 hclash, ?_⟩
    intro e he
    obtain rfl := Option.mem_some.1 he
    exact init.resolve_scoped hinit

theorem resolvable_loop {inLoop dangling : Bool} {depth : Nat} {body : Stmt Unit}
    (h : (Clause.statement inLoop depth dangling body).Resolvable) (condition : Expr Unit)
    (step : Option (Expr Unit)) :
    (Clause.form inLoop depth dangling (forTree none (some condition) step body)).Resolvable := by
  obtain ⟨hdeclare, hscoped⟩ := h
  cases step with
  | none =>
    refine ⟨hdeclare, fun c scopes hcheck => ?_⟩
    obtain ⟨hcondition, hbody⟩ := List.append_eq_nil_iff.1 hcheck
    exact ⟨condition.resolve_scoped hcondition, hscoped _ _ hbody⟩
  | some e =>
    refine ⟨fun scopes => hdeclare scopes, fun c scopes hcheck => ?_⟩
    obtain ⟨hboth, hstep⟩ := List.append_eq_nil_iff.1 hcheck
    obtain ⟨hcondition, hbody⟩ := List.append_eq_nil_iff.1 hboth
    rw [hdeclare] at hstep
    refine ⟨condition.resolve_scoped hcondition, hscoped _ _ hbody, ?_⟩
    rw [hdeclare]
    exact e.resolve_scoped hstep

/-- A loop that declares or computes something first is a list of two in a block. -/
theorem resolvable_for {inLoop dangling : Bool} {depth : Nat} {init : Option (Stmt Unit)}
    {condition step : Option (Expr Unit)} {body : Stmt Unit} {ts : List Token}
    (hinit : InitSpelledBy init ts)
    (h : (Clause.statement inLoop depth dangling body).Resolvable) :
    (Clause.form inLoop depth dangling (forTree init condition step body)).Resolvable := by
  have hloop : (Clause.form inLoop depth dangling (forTree none condition step body)).Resolvable :=
    resolvable_loop h (condition.getD (.literal (.bool true))) step
  obtain ⟨hdeclare, hscoped⟩ := hloop
  cases hinit with
  | absent => exact ⟨hdeclare, hscoped⟩
  | @var _ s _ _ hs =>
    refine ⟨fun _ => rfl, fun c scopes hcheck => ?_⟩
    obtain ⟨hfirst, hrest⟩ := List.append_eq_nil_iff.1 hcheck
    obtain ⟨hnext, -⟩ := List.append_eq_nil_iff.1 hrest
    refine ⟨resolvable_var hs hfirst, ?_, trivial⟩
    rw [s.declare_resolve]
    exact (hscoped _ _ hnext).listed
  | @expression _ e =>
    refine ⟨fun _ => rfl, fun c scopes hcheck => ?_⟩
    obtain ⟨hfirst, hrest⟩ := List.append_eq_nil_iff.1 hcheck
    obtain ⟨hnext, -⟩ := List.append_eq_nil_iff.1 hrest
    exact ⟨e.resolve_scoped hfirst, (hscoped _ _ hnext).listed, trivial⟩

theorem resolvable_optional {value : Option (Expr Unit)} (h : Expr.check? scopes value = []) :
    ∀ e ∈ value.map (Expr.resolve scopes), e.Scoped scopes := by
  intro e he
  obtain ⟨e, rfl, rfl⟩ := Option.map_eq_some_iff.1 he
  exact e.resolve_scoped h

theorem Grammar.Clause.SpelledBy.resolvable {c : Clause} {ts : List Token} (h : c.SpelledBy ts) :
    c.Resolvable := by
  induction h with
  | nested _ _ ih => exact ih
  | @print _ _ _ _ e | @expression _ _ _ e =>
    exact ⟨fun _ => rfl, fun _ _ hcheck => e.resolve_scoped hcheck⟩
  | block _ _ _ ih => exact ⟨fun _ => rfl, fun c scopes hcheck => ih c ([] :: scopes) hcheck⟩
  | @ifThen _ _ _ _ _ _ condition body _ _ _ _ _ _ _ ih =>
    refine ⟨ih.1, fun c scopes hcheck => ?_⟩
    obtain ⟨hcondition, hbody⟩ := List.append_eq_nil_iff.1 hcheck
    exact ⟨condition.resolve_scoped hcondition, ih.2 _ _ hbody⟩
  | @ifElse _ _ _ _ _ _ _ condition yes no _ _ _ _ _ _ _ _ _ _ ihyes ihno =>
    refine ⟨fun scopes => ?_, fun c scopes hcheck => ?_⟩
    · simp only [Stmt.declare, ihyes.1, ihno.1]
    · obtain ⟨hboth, hno⟩ := List.append_eq_nil_iff.1 hcheck
      obtain ⟨hcondition, hyes⟩ := List.append_eq_nil_iff.1 hboth
      rw [ihyes.1] at hno
      refine ⟨condition.resolve_scoped hcondition, ihyes.2 _ _ hyes, ?_⟩
      rw [ihyes.1]
      exact ihno.2 _ _ hno
  | @switch _ _ _ _ _ _ _ subject _ _ _ _ _ _ _ _ _ _ ih =>
    refine ⟨ih.1, fun c scopes hcheck => ?_⟩
    obtain ⟨hsubject, harms⟩ := List.append_eq_nil_iff.1 hcheck
    exact ⟨subject.resolve_scoped hsubject, ih.2 _ _ harms⟩
  | whileLoop _ _ _ _ _ ih => exact resolvable_loop ih _ none
  | forLoop _ _ _ _ hinit _ _ _ ih => exact resolvable_for hinit ih
  | @doLoop _ _ _ _ _ _ _ _ condition body _ _ _ _ _ _ _ _ _ ih =>
    refine ⟨ih.1, fun c scopes hcheck => ?_⟩
    obtain ⟨hbody, hcondition⟩ := List.append_eq_nil_iff.1 hcheck
    rw [ih.1] at hcondition
    refine ⟨ih.2 _ _ hbody, ?_⟩
    rw [ih.1]
    exact condition.resolve_scoped hcondition
  | exit | again => exact ⟨fun _ => rfl, fun _ _ _ => trivial⟩
  | give =>
    refine ⟨fun _ => rfl, fun c scopes hcheck => ?_⟩
    exact resolvable_optional (List.append_eq_nil_iff.1 hcheck).2
  | plain _ ih => exact fun c scopes hcheck => (ih.2 c scopes hcheck).listed
  | var _ hs => exact fun _ _ hcheck => resolvable_var hs hcheck
  | function _ _ _ _ _ _ _ _ _ _ ih =>
    intro c scopes hcheck
    obtain ⟨hboth, hbody⟩ := List.append_eq_nil_iff.1 hcheck
    obtain ⟨hclash, hparams⟩ := List.append_eq_nil_iff.1 hboth
    exact ⟨rfl, reportIf_eq_nil.1 hclash, (checkParams_nodup hparams).1, ih _ _ hbody⟩
  | nil => exact fun _ _ _ => trivial
  | @cons _ _ s _ _ _ _ _ ihs ihss =>
    intro c scopes hcheck
    obtain ⟨hs, hss⟩ := List.append_eq_nil_iff.1 hcheck
    refine ⟨ihs _ _ hs, ?_⟩
    rw [s.declare_resolve]
    exact ihss _ _ hss
  | noArm => exact ⟨fun _ => rfl, fun _ _ _ => trivial⟩
  | otherwise _ _ _ ih => exact ih
  | @case _ _ _ _ _ condition body rest _ _ _ _ _ _ _ _ ihbody ihrest =>
    refine ⟨fun scopes => ?_, fun c scopes hcheck => ?_⟩
    · simp only [Arms.declare, ihbody.1, ihrest.1]
    · obtain ⟨hboth, hrest⟩ := List.append_eq_nil_iff.1 hcheck
      obtain ⟨hcondition, hbody⟩ := List.append_eq_nil_iff.1 hboth
      rw [ihbody.1] at hrest
      refine ⟨condition.resolve_scoped hcondition, ihbody.2 _ _ hbody, ?_⟩
      rw [ihbody.1]
      exact ihrest.2 _ _ hrest

/-- A program without errors of syntax or scope is resolved as it should be. -/
theorem parsed_scoped {tokens : List Token} {program : List (Stmt Unit)}
    (hparse : parse room tokens = .ok ⟨program, []⟩) (hcheck : check program = []) :
    Stmt.AllScoped [] (resolve program) := by
  obtain ⟨ts, eof, rest, -, -, hspelled⟩ := Parse.parse_reads hparse
  exact Clause.SpelledBy.resolvable hspelled .top [] hcheck

end Scriptlet

import Scriptlet.Proofs.Parsing.Soundness
import Scriptlet.Resolve.Address

/-! The string literals of a program. They are those of its text, and to mark the variables with
addresses changes none of them. -/
namespace Scriptlet

variable {ρ : Type}

def Literal.strings : Literal → List String
  | .string s => [s]
  | .nil | .bool _ | .number _ => []

mutual

/-- In the order of the text. -/
def Expr.strings : Expr ρ → List String
  | .assign _ inner _ | .grouping inner | .unary _ inner => inner.strings
  | .binary left _ right => left.strings ++ right.strings
  | .call callee _ arguments => callee.strings ++ Expr.stringsAll arguments
  | .conditional condition yes no => condition.strings ++ (yes.strings ++ no.strings)
  | .literal value => value.strings
  | .reference _ _ => []

def Expr.stringsAll : List (Expr ρ) → List String
  | [] => []
  | e :: es => e.strings ++ Expr.stringsAll es

end

def Expr.stringsIf : Option (Expr ρ) → List String
  | none => []
  | some e => e.strings

mutual

/-- In the order of the text, where the step of a loop stands before the body. -/
def Stmt.strings : Stmt ρ → List String
  | .block body | .function _ _ body => Stmt.stringsAll body
  | .jump _ _ => []
  | .doLoop body condition => body.strings ++ condition.strings
  | .expression value | .print value => value.strings
  | .ifThen condition body | .loop condition body => condition.strings ++ body.strings
  | .ifElse condition yes no => condition.strings ++ (yes.strings ++ no.strings)
  | .loopStep condition body step => condition.strings ++ (step.strings ++ body.strings)
  | .give _ value | .var _ value => Expr.stringsIf value
  | .switch subject arms => subject.strings ++ arms.strings

def Stmt.stringsAll : List (Stmt ρ) → List String
  | [] => []
  | s :: ss => s.strings ++ Stmt.stringsAll ss

def Arms.strings : Arms ρ → List String
  | .done => []
  | .otherwise body => body.strings
  | .case condition body rest => condition.strings ++ (body.strings ++ rest.strings)

end

section Resolved

mutual

@[simp] theorem Expr.strings_resolve {scopes : Scopes} :
    (e : Expr ρ) → (e.resolve scopes).strings = e.strings
  | .assign _ inner _ | .grouping inner | .unary _ inner => inner.strings_resolve
  | .binary left _ right => by
    rw [Expr.resolve, Expr.strings, left.strings_resolve, right.strings_resolve, Expr.strings]
  | .call callee _ arguments => by
    rw [Expr.resolve, Expr.strings, callee.strings_resolve, Expr.strings_resolveAll, Expr.strings]
  | .conditional condition yes no => by
    rw [Expr.resolve, Expr.strings, condition.strings_resolve, yes.strings_resolve,
      no.strings_resolve, Expr.strings]
  | .literal _ | .reference _ _ => rfl

@[simp] theorem Expr.strings_resolveAll {scopes : Scopes} :
    (es : List (Expr ρ)) → Expr.stringsAll (Expr.resolveAll scopes es) = Expr.stringsAll es
  | [] => rfl
  | e :: es => by
    rw [Expr.resolveAll, Expr.stringsAll, e.strings_resolve, Expr.strings_resolveAll,
      Expr.stringsAll]

end

@[simp] theorem Expr.stringsIf_resolve {scopes : Scopes} (value : Option (Expr ρ)) :
    Expr.stringsIf (value.map (Expr.resolve scopes)) = Expr.stringsIf value := by
  cases value with
  | none => rfl
  | some e => exact e.strings_resolve

mutual

@[simp] theorem Stmt.strings_resolve {scopes : Scopes} :
    (s : Stmt ρ) → (s.resolve scopes).strings = s.strings
  | .block body | .function _ _ body => Stmt.strings_resolveAll body
  | .jump _ _ => rfl
  | .doLoop body condition => by
    rw [Stmt.resolve, Stmt.strings, body.strings_resolve, condition.strings_resolve, Stmt.strings]
  | .expression value | .print value => value.strings_resolve
  | .ifThen condition body | .loop condition body => by
    rw [Stmt.resolve, Stmt.strings, condition.strings_resolve, body.strings_resolve, Stmt.strings]
  | .ifElse condition yes no => by
    rw [Stmt.resolve, Stmt.strings, condition.strings_resolve, yes.strings_resolve,
      no.strings_resolve, Stmt.strings]
  | .loopStep condition body step => by
    rw [Stmt.resolve, Stmt.strings, condition.strings_resolve, body.strings_resolve,
      step.strings_resolve, Stmt.strings]
  | .give _ value | .var _ value => Expr.stringsIf_resolve value
  | .switch subject arms => by
    rw [Stmt.resolve, Stmt.strings, subject.strings_resolve, arms.strings_resolve, Stmt.strings]

@[simp] theorem Stmt.strings_resolveAll {scopes : Scopes} :
    (ss : List (Stmt ρ)) → Stmt.stringsAll (Stmt.resolveAll scopes ss) = Stmt.stringsAll ss
  | [] => rfl
  | s :: ss => by
    rw [Stmt.resolveAll, Stmt.stringsAll, s.strings_resolve, Stmt.strings_resolveAll,
      Stmt.stringsAll]

@[simp] theorem Arms.strings_resolve {scopes : Scopes} :
    (as : Arms ρ) → (as.resolve scopes).strings = as.strings
  | .done => rfl
  | .otherwise body => body.strings_resolve
  | .case condition body rest => by
    rw [Arms.resolve, Arms.strings, condition.strings_resolve, body.strings_resolve,
      rest.strings_resolve, Arms.strings]

end

end Resolved

section Spelled

/-- The string that the token stands for, if it does. -/
def Token.string? (t : Token) : Option String :=
  if t.kind = .string then some (Parse.unquote t.lexeme) else none

/-- The strings that the tokens stand for. -/
def Token.strings (ts : List Token) : List String := ts.filterMap Token.string?

variable {ts us : List Token} {t : Token}

@[simp] theorem strings_append :
    Token.strings (ts ++ us) = Token.strings ts ++ Token.strings us :=
  List.filterMap_append ..

/-- No other kind of token stands for a string. -/
theorem strings_skip {kind : Kind} (ht : t.kind = kind) (hkind : kind ≠ .string) :
    Token.strings (t :: ts) = Token.strings ts :=
  List.filterMap_cons_none (if_neg (ht ▸ hkind))

theorem strings_one {kind : Kind} (ht : t.kind = kind) (hkind : kind ≠ .string) :
    Token.strings [t] = [] := strings_skip ht hkind

theorem strings_literal (ht : t.kind = .string) :
    Token.strings [t] = [Parse.unquote t.lexeme] := by
  simp [Token.strings, Token.string?, ht]

namespace Grammar

theorem operators_ne_string {level : Parse.Level} (h : t.kind ∈ level.operators) :
    t.kind ≠ .string := by
  have hall : Kind.string ∉ level.operators := by cases level <;> decide
  exact fun he => hall (he ▸ h)

def Phrase.strings : Phrase → List String
  | .expr _ e => e.strings
  | .arguments es => Expr.stringsAll es

theorem Phrase.SpelledBy.strings {p : Phrase} (h : p.SpelledBy ts) :
    p.strings = Token.strings ts := by
  induction h with
  | tighter _ ih => exact ih
  | binary hop _ _ ihleft ihright =>
    rw [strings_append, strings_skip rfl (operators_ne_string hop), ← ihleft, ← ihright]
    rfl
  | assign hname hequals _ ih =>
    rw [strings_skip hname (by decide), strings_skip hequals (by decide), ← ih]
    rfl
  | conditional hquestion hcolon _ _ _ ihcondition ihyes ihno =>
    rw [strings_append, strings_skip hquestion (by decide), strings_append,
      strings_skip hcolon (by decide), ← ihcondition, ← ihyes, ← ihno]
    rfl
  | @unary op right ts hop _ ih =>
    have hne : op.kind ≠ .string := fun he => by simp [he] at hop
    rw [strings_skip rfl hne, ← ih]
    rfl
  | call hleft hright _ _ _ ihcallee ihargs =>
    rw [strings_append, strings_skip hleft (by decide), strings_append,
      strings_one hright (by decide), List.append_nil, ← ihcallee, ← ihargs]
    rfl
  | grouping hleft hright _ ih =>
    rw [strings_skip hleft (by decide), strings_append, strings_one hright (by decide),
      List.append_nil, ← ih]
    rfl
  | reference ht | kwTrue ht | kwFalse ht | kwNil ht | number ht =>
    rw [strings_one ht (by decide)]
    rfl
  | string ht =>
    rw [strings_literal ht]
    rfl
  | noArgument => rfl
  | oneArgument _ ih => exact (List.append_nil _).trans ih
  | moreArguments hcomma _ _ ihe ihes =>
    rw [strings_append, strings_skip hcomma (by decide), ← ihe, ← ihes]
    rfl

theorem strings_expr {e : Expr Unit} (h : ExprSpelledBy e ts) : e.strings = Token.strings ts :=
  Phrase.SpelledBy.strings h

theorem strings_optional {value : Option (Expr Unit)} (h : OptionalSpelledBy value ts) :
    Expr.stringsIf value = Token.strings ts := by
  cases h with
  | absent => rfl
  | present he => exact strings_expr he

theorem strings_params {ps : List Token} (h : ParamsSpelledBy ps ts) : Token.strings ts = [] := by
  induction h with
  | none => rfl
  | one hp => exact strings_one hp (by decide)
  | more hp hcomma _ ih =>
    rw [strings_skip hp (by decide), strings_skip hcomma (by decide), ih]

theorem strings_var {s : Stmt Unit} (h : VarSpelledBy s ts) : s.strings = Token.strings ts := by
  cases h with
  | plain hname hsemicolon =>
    rw [strings_skip hname (by decide), strings_one hsemicolon (by decide)]
    rfl
  | initialized hname hequals hsemicolon hinit =>
    rw [strings_skip hname (by decide), strings_skip hequals (by decide), strings_append,
      strings_one hsemicolon (by decide), List.append_nil, ← strings_expr hinit]
    rfl

theorem strings_for {init : Option (Stmt Unit)} {condition step : Option (Expr Unit)}
    {body : Stmt Unit} {vs : List Token} (hinit : InitSpelledBy init ts)
    (hcondition : OptionalSpelledBy condition us) (hstep : OptionalSpelledBy step vs) :
    (forTree init condition step body).strings =
      Token.strings ts ++ (Token.strings us ++ (Token.strings vs ++ body.strings)) := by
  have hfirst : (condition.getD (.literal (.bool true))).strings = Token.strings us := by
    rw [← strings_optional hcondition]
    cases condition <;> rfl
  have hloop : (forTree none condition step body).strings =
      Token.strings us ++ (Token.strings vs ++ body.strings) := by
    rw [← hfirst, ← strings_optional hstep]
    cases step <;> rfl
  have hblock (s : Stmt Unit) : (forTree (some s) condition step body).strings =
      s.strings ++ (forTree none condition step body).strings :=
    congrArg (s.strings ++ ·) (List.append_nil _)
  cases hinit with
  | absent hsemicolon =>
    rw [strings_one hsemicolon (by decide), hloop]
    rfl
  | var hkeyword hs => rw [hblock, strings_skip hkeyword (by decide), strings_var hs, hloop]
  | expression hsemicolon he =>
    rw [hblock, strings_append, strings_one hsemicolon (by decide), List.append_nil, hloop,
      ← strings_expr he]
    rfl

def Clause.strings : Clause → List String
  | .statement _ _ _ s | .form _ _ _ s | .declaration _ _ s => s.strings
  | .list _ _ ss => Stmt.stringsAll ss
  | .arms _ _ as => as.strings

theorem Clause.SpelledBy.strings {c : Clause} (h : c.SpelledBy ts) :
    c.strings = Token.strings ts := by
  induction h with
  | nested _ _ ih | plain _ ih => exact ih
  | print hkeyword hsemicolon he =>
    rw [strings_skip hkeyword (by decide), strings_append, strings_one hsemicolon (by decide),
      List.append_nil, ← strings_expr he]
    rfl
  | block hleft hright _ ih =>
    rw [strings_skip hleft (by decide), strings_append, strings_one hright (by decide),
      List.append_nil, ← ih]
    rfl
  | ifThen hkeyword hleft hright hcondition _ ih
  | whileLoop hkeyword hleft hright hcondition _ ih =>
    rw [strings_skip hkeyword (by decide), strings_skip hleft (by decide), strings_append,
      strings_skip hright (by decide), ← strings_expr hcondition, ← ih]
    rfl
  | ifElse hkeyword hleft hright helse hcondition _ _ ihyes ihno =>
    rw [strings_skip hkeyword (by decide), strings_skip hleft (by decide), strings_append,
      strings_skip hright (by decide), strings_append, strings_skip helse (by decide),
      ← strings_expr hcondition, ← ihyes, ← ihno]
    rfl
  | switch hkeyword hleft hright hleftBrace hrightBrace hsubject _ ih =>
    rw [strings_skip hkeyword (by decide), strings_skip hleft (by decide), strings_append,
      strings_skip hright (by decide), strings_skip hleftBrace (by decide), strings_append,
      strings_one hrightBrace (by decide), List.append_nil, ← strings_expr hsubject, ← ih]
    rfl
  | forLoop hkeyword hleft hsemicolon hright hinit hcondition hstep _ ih =>
    rw [strings_skip hkeyword (by decide), strings_skip hleft (by decide), strings_append,
      strings_append, strings_skip hsemicolon (by decide), strings_append,
      strings_skip hright (by decide), ← ih]
    exact strings_for hinit hcondition hstep
  | doLoop hkeyword hwhile hleft hright hsemicolon _ hcondition ih =>
    rw [strings_skip hkeyword (by decide), strings_append, strings_skip hwhile (by decide),
      strings_skip hleft (by decide), strings_append, strings_skip hright (by decide),
      strings_one hsemicolon (by decide), List.append_nil, ← strings_expr hcondition, ← ih]
    rfl
  | exit hkeyword hsemicolon | again hkeyword hsemicolon =>
    rw [strings_skip hkeyword (by decide), strings_one hsemicolon (by decide)]
    rfl
  | give hkeyword hsemicolon hvalue =>
    rw [strings_skip hkeyword (by decide), strings_append, strings_one hsemicolon (by decide),
      List.append_nil, ← strings_optional hvalue]
    rfl
  | expression hsemicolon he =>
    rw [strings_append, strings_one hsemicolon (by decide), List.append_nil, ← strings_expr he]
    rfl
  | var hkeyword hs =>
    rw [strings_skip hkeyword (by decide), ← strings_var hs]
    rfl
  | function hkeyword hname hleft hright hleftBrace hrightBrace _ _ hparams _ ih =>
    rw [strings_skip hkeyword (by decide), strings_skip hname (by decide),
      strings_skip hleft (by decide), strings_append, strings_params hparams,
      strings_skip hright (by decide), strings_skip hleftBrace (by decide), strings_append,
      strings_one hrightBrace (by decide), List.append_nil, ← ih]
    rfl
  | nil | noArm => rfl
  | cons _ _ ihs ihss =>
    rw [strings_append, ← ihs, ← ihss]
    rfl
  | otherwise hkeyword hcolon _ ih =>
    rw [strings_skip hkeyword (by decide), strings_skip hcolon (by decide), ← ih]
    rfl
  | case hkeyword hcolon hcondition _ _ ihbody ihrest =>
    rw [strings_skip hkeyword (by decide), strings_append, strings_skip hcolon (by decide),
      strings_append, ← strings_expr hcondition, ← ihbody, ← ihrest]
    rfl

end Grammar

/-- The literals of a program are the strings of its text, one for one, up to where it ends. -/
theorem strings_parsed {tokens : List Token} {program : List (Stmt Unit)}
    (hparse : parse room tokens = .ok ⟨program, []⟩) :
    ∃ rest, Token.strings tokens = Stmt.stringsAll (resolve program) ++ rest := by
  obtain ⟨ts, eof, more, rfl, heof, hspelled⟩ := Parse.parse_reads hparse
  have hprogram : Stmt.stringsAll program = Token.strings ts :=
    Grammar.Clause.SpelledBy.strings hspelled
  refine ⟨Token.strings more, ?_⟩
  rw [strings_append, strings_skip heof (by decide), resolve, Stmt.strings_resolveAll, hprogram]

end Spelled

end Scriptlet

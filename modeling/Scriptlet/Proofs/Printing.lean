import Scriptlet.CommandLine.Shell
import Scriptlet.Proofs.Parsing.Completeness

/-! Trees printed as tokens. A tree of the shape that the grammar allows, printed and parsed again,
is the same tree. -/
namespace Scriptlet

open Parse (Level)
open Grammar

/-- How the tokens look that a tree does not keep: the marks and keywords, and the numerals. -/
structure Typeface where
  mark : Kind → Token
  numeral : Float → String
  mark_kind (k : Kind) : (mark k).kind = k

variable (f : Typeface)

/-- Strings get their quotes back, whatever is between them. -/
def Literal.token : Literal → Token
  | .nil => f.mark .kwNil
  | .bool true => f.mark .kwTrue
  | .bool false => f.mark .kwFalse
  | .number x => { f.mark .number with lexeme := f.numeral x }
  | .string s => { f.mark .string with lexeme := "\"" ++ s ++ "\"" }

mutual

def Expr.tokens : Expr Unit → List Token
  | .assign name value _ => name :: f.mark .equal :: value.tokens
  | .binary left operator right => left.tokens ++ operator :: right.tokens
  | .call callee paren arguments =>
    callee.tokens ++
      f.mark .leftParen :: ([f.mark .comma].intercalate (Expr.tokensAll arguments) ++ [paren])
  | .conditional condition thenBranch elseBranch =>
    condition.tokens ++
      f.mark .question :: (thenBranch.tokens ++ f.mark .colon :: elseBranch.tokens)
  | .grouping inner => f.mark .leftParen :: (inner.tokens ++ [f.mark .rightParen])
  | .literal value => [value.token f]
  | .unary operator right => operator :: right.tokens
  | .reference name _ => [name]

def Expr.tokensAll : List (Expr Unit) → List (List Token)
  | [] => []
  | e :: es => e.tokens :: Expr.tokensAll es

end

def Expr.tokens? : Option (Expr Unit) → List Token
  | some e => e.tokens f
  | none => []

/-- The step of a loop stands in its head, without a semicolon. -/
def Stmt.stepTokens : Stmt Unit → List Token
  | .expression e => e.tokens f
  | _ => []

mutual

/-- A loop with a step is printed as a `for` loop that does nothing first. -/
def Stmt.tokens : Stmt Unit → List Token
  | .block body => f.mark .leftBrace :: (Stmt.tokensAll body ++ [f.mark .rightBrace])
  | .jump _ keyword => [keyword, f.mark .semicolon]
  | .doLoop body condition =>
    f.mark .kwDo :: (body.tokens ++ f.mark .kwWhile :: f.mark .leftParen ::
      (condition.tokens f ++ [f.mark .rightParen, f.mark .semicolon]))
  | .expression value => value.tokens f ++ [f.mark .semicolon]
  | .function name params body =>
    f.mark .kwFunction :: name :: f.mark .leftParen ::
      ([f.mark .comma].intercalate (params.map ([·])) ++ f.mark .rightParen ::
        f.mark .leftBrace :: (Stmt.tokensAll body ++ [f.mark .rightBrace]))
  | .ifThen condition thenBranch =>
    f.mark .kwIf :: f.mark .leftParen ::
      (condition.tokens f ++ f.mark .rightParen :: thenBranch.tokens)
  | .ifElse condition thenBranch elseBranch =>
    f.mark .kwIf :: f.mark .leftParen ::
      (condition.tokens f ++ f.mark .rightParen ::
        (thenBranch.tokens ++ f.mark .kwElse :: elseBranch.tokens))
  | .print value => f.mark .kwPrint :: (value.tokens f ++ [f.mark .semicolon])
  | .give keyword value => keyword :: (Expr.tokens? f value ++ [f.mark .semicolon])
  | .switch subject arms =>
    f.mark .kwSwitch :: f.mark .leftParen ::
      (subject.tokens f ++ f.mark .rightParen :: f.mark .leftBrace ::
        (arms.tokens ++ [f.mark .rightBrace]))
  | .var name none => [f.mark .kwVar, name, f.mark .semicolon]
  | .var name (some init) =>
    f.mark .kwVar :: name :: f.mark .equal :: (init.tokens f ++ [f.mark .semicolon])
  | .loop condition body =>
    f.mark .kwWhile :: f.mark .leftParen ::
      (condition.tokens f ++ f.mark .rightParen :: body.tokens)
  | .loopStep condition body step =>
    f.mark .kwFor :: f.mark .leftParen :: f.mark .semicolon ::
      (condition.tokens f ++ f.mark .semicolon ::
        (step.stepTokens f ++ f.mark .rightParen :: body.tokens))

def Stmt.tokensAll : List (Stmt Unit) → List Token
  | [] => []
  | s :: ss => s.tokens ++ Stmt.tokensAll ss

def Arms.tokens : Arms Unit → List Token
  | .done => []
  | .otherwise body => f.mark .kwDefault :: f.mark .colon :: body.tokens
  | .case condition body rest =>
    f.mark .kwCase :: (condition.tokens f ++ f.mark .colon :: (body.tokens ++ rest.tokens))

end

/-- A number must have a numeral that reads as the number. -/
def Literal.Shaped : Literal → Prop
  | .number x => readNumber? (f.numeral x) = some x
  | _ => True

mutual

/-- An expression may stand where the level is asked for: it binds at least so tightly, and each
part may stand in its place. -/
def Expr.Shaped (level : Level) : Expr Unit → Prop
  | .assign name value _ =>
    Level.assignment.rank ≤ level.rank ∧ name.kind = .identifier ∧ value.Shaped .assignment
  | .binary left operator right =>
    ∃ own : Level, own.rank ≤ level.rank ∧ operator.kind ∈ own.operators ∧
      left.Shaped own ∧ right.Shaped own.tighter
  | .call callee paren arguments =>
    Level.call.rank ≤ level.rank ∧ paren.kind = .rightParen ∧ arguments.length ≤ maxArguments ∧
      callee.Shaped .call ∧ Expr.AllShaped arguments
  | .conditional condition thenBranch elseBranch =>
    Level.conditional.rank ≤ level.rank ∧ condition.Shaped .or ∧ thenBranch.Shaped .comma ∧
      elseBranch.Shaped .conditional
  | .grouping inner => inner.Shaped .comma
  | .literal value => value.Shaped f
  | .unary operator right =>
    Level.unary.rank ≤ level.rank ∧ operator.kind ∈ [Kind.bang, .minus] ∧ right.Shaped .unary
  | .reference name _ => name.kind = .identifier

def Expr.AllShaped : List (Expr Unit) → Prop
  | [] => True
  | e :: es => e.Shaped .assignment ∧ Expr.AllShaped es

end

def Jump.kind : Jump → Kind
  | .exit => .kwBreak
  | .again => .kwContinue

/-- An `else` right after the statement would belong to an `if` at its end. -/
def Stmt.dangles : Stmt Unit → Bool
  | .ifThen _ _ => true
  | .ifElse _ _ body | .loop _ body | .loopStep _ body _ => body.dangles
  | _ => false

mutual

/-- A statement may stand where `depth` statements and functions are around it. Where it is
`listed`, in a block, in a function or at top level, it may be a declaration. -/
def Stmt.Shaped (inLoop listed : Bool) (depth : Nat) : Stmt Unit → Prop
  | .block body => depth < maxNesting ∧ Stmt.AllShaped inLoop (depth + 1) body
  | .jump j keyword => depth < maxNesting ∧ inLoop = true ∧ keyword.kind = j.kind
  | .doLoop body condition =>
    depth < maxNesting ∧ body.Shaped true false (depth + 1) ∧ condition.Shaped f .comma
  | .expression value | .print value => depth < maxNesting ∧ value.Shaped f .comma
  | .function name params body =>
    listed = true ∧ depth < maxNesting ∧ name.kind = .identifier ∧
      params.length ≤ maxArguments ∧ (∀ p ∈ params, p.kind = .identifier) ∧
      Stmt.AllShaped false (depth + 1) body
  | .ifThen condition thenBranch =>
    depth < maxNesting ∧ condition.Shaped f .comma ∧ thenBranch.Shaped inLoop false (depth + 1)
  | .ifElse condition thenBranch elseBranch =>
    depth < maxNesting ∧ condition.Shaped f .comma ∧ thenBranch.dangles = false ∧
      thenBranch.Shaped inLoop false (depth + 1) ∧ elseBranch.Shaped inLoop false (depth + 1)
  | .give keyword value =>
    depth < maxNesting ∧ keyword.kind = .kwReturn ∧ ∀ e ∈ value, e.Shaped f .comma
  | .switch subject arms =>
    depth < maxNesting ∧ subject.Shaped f .comma ∧ arms.Shaped inLoop (depth + 1)
  | .var name init => listed = true ∧ name.kind = .identifier ∧ ∀ e ∈ init, e.Shaped f .comma
  | .loop condition body =>
    depth < maxNesting ∧ condition.Shaped f .comma ∧ body.Shaped true false (depth + 1)
  | .loopStep condition body step =>
    depth < maxNesting ∧ condition.Shaped f .comma ∧ body.Shaped true false (depth + 1) ∧
      ∃ e : Expr Unit, step = .expression e ∧ e.Shaped f .comma

def Stmt.AllShaped (inLoop : Bool) (depth : Nat) : List (Stmt Unit) → Prop
  | [] => True
  | s :: ss => s.Shaped inLoop true depth ∧ Stmt.AllShaped inLoop depth ss

def Arms.Shaped (inLoop : Bool) (depth : Nat) : Arms Unit → Prop
  | .done => True
  | .otherwise body => body.Shaped inLoop false depth
  | .case condition body rest =>
    condition.Shaped f .comma ∧ body.Shaped inLoop false depth ∧ rest.Shaped inLoop depth

end

variable {f}

theorem unquote_quoted (s : String) : Parse.unquote ("\"" ++ s ++ "\"") = s := by
  simp [Parse.unquote]

theorem Literal.Shaped.spelledBy {v : Literal} (h : v.Shaped f) :
    (Phrase.expr .primary (.literal v)).SpelledBy [v.token f] := by
  cases v with
  | nil => exact .kwNil (f.mark_kind _)
  | bool b => cases b with
    | true => exact .kwTrue (f.mark_kind _)
    | false => exact .kwFalse (f.mark_kind _)
  | number x => exact .number (f.mark_kind _) h
  | string s =>
    have := Phrase.SpelledBy.string (t := (Literal.string s).token f) (f.mark_kind _)
    rwa [Literal.token, unquote_quoted] at this

mutual

theorem Expr.Shaped.spelledBy {level : Level} : {e : Expr Unit} → e.Shaped f level →
    (Phrase.expr level e).SpelledBy (e.tokens f)
  | .assign _ _ _, ⟨hrank, hname, hvalue⟩ =>
    (Phrase.SpelledBy.assign hname (f.mark_kind _) hvalue.spelledBy).loosen hrank
  | .binary _ _ _, ⟨_, hrank, hop, hleft, hright⟩ =>
    (Phrase.SpelledBy.binary hop hleft.spelledBy hright.spelledBy).loosen hrank
  | .call _ _ _, ⟨hrank, hparen, hmany, hcallee, harguments⟩ =>
    (Phrase.SpelledBy.call (f.mark_kind _) hparen hmany hcallee.spelledBy
      (Expr.AllShaped.spelledBy harguments)).loosen hrank
  | .conditional _ _ _, ⟨hrank, hcondition, hyes, hno⟩ =>
    (Phrase.SpelledBy.conditional (f.mark_kind _) (f.mark_kind _) hcondition.spelledBy
      hyes.spelledBy hno.spelledBy).loosen hrank
  | .grouping _, hinner =>
    (Phrase.SpelledBy.grouping (f.mark_kind _) (f.mark_kind _)
      (Expr.Shaped.spelledBy hinner)).loosen (Nat.zero_le _)
  | .literal _, hvalue => (Literal.Shaped.spelledBy hvalue).loosen (Nat.zero_le _)
  | .unary _ _, ⟨hrank, hop, hright⟩ =>
    (Phrase.SpelledBy.unary hop hright.spelledBy).loosen hrank
  | .reference _ _, hname => (Phrase.SpelledBy.reference hname).loosen (Nat.zero_le _)

theorem Expr.AllShaped.spelledBy : {es : List (Expr Unit)} → Expr.AllShaped f es →
    (Phrase.arguments es).SpelledBy ([f.mark .comma].intercalate (Expr.tokensAll f es))
  | [], _ => .noArgument
  | [_], ⟨he, _⟩ => by simpa [Expr.tokensAll, List.intercalate] using .oneArgument he.spelledBy
  | _ :: _ :: _, ⟨he, hes⟩ => by
    simpa [Expr.tokensAll, List.intercalate] using
      .moreArguments (f.mark_kind .comma) he.spelledBy (Expr.AllShaped.spelledBy hes)

end

theorem params_spelledBy {ps : List Token} (h : ∀ p ∈ ps, p.kind = .identifier) :
    ParamsSpelledBy ps ([f.mark .comma].intercalate (ps.map ([·]))) := by
  induction ps with
  | nil => exact .none
  | cons p ps ih =>
    have hp := h p (by simp)
    cases ps with
    | nil => simpa [List.intercalate] using .one hp
    | cons q ps =>
      have hps := ih fun r hr => h r (by simp [hr])
      simpa [List.intercalate] using .more hp (f.mark_kind .comma) hps

theorem optional_spelledBy {o : Option (Expr Unit)} (h : ∀ e ∈ o, e.Shaped f .comma) :
    OptionalSpelledBy o (Expr.tokens? f o) := by
  cases o with
  | none => exact .absent
  | some e => exact .present (h e rfl).spelledBy

theorem Stmt.Shaped.var_spelledBy {inLoop listed : Bool} {depth : Nat} {name : Token}
    {init : Option (Expr Unit)} (h : (Stmt.var name init).Shaped f inLoop listed depth) :
    (Clause.declaration inLoop depth (.var name init)).SpelledBy
      ((Stmt.var name init).tokens f) := by
  obtain ⟨-, hname, hinit⟩ := h
  cases init with
  | none => exact .var (f.mark_kind _) (.plain hname (f.mark_kind _))
  | some e =>
    exact .var (f.mark_kind _)
      (.initialized hname (f.mark_kind _) (f.mark_kind _) (hinit e rfl).spelledBy)

/-- A loop with a step and nothing to do first. -/
theorem step_spelledBy {inLoop dangling : Bool} {depth : Nat} {condition step : Expr Unit}
    {body : Stmt Unit} {ts : List Token} (hcondition : condition.Shaped f .comma)
    (hstep : step.Shaped f .comma)
    (hbody : (Clause.statement true depth dangling body).SpelledBy ts) :
    (Clause.form inLoop depth dangling (.loopStep condition body (.expression step))).SpelledBy
      (f.mark .kwFor :: f.mark .leftParen :: f.mark .semicolon ::
        (condition.tokens f ++ f.mark .semicolon ::
          (step.tokens f ++ f.mark .rightParen :: ts))) :=
  .forLoop (f.mark_kind _) (f.mark_kind _) (f.mark_kind _) (f.mark_kind _)
    (.absent (f.mark_kind .semicolon)) (.present hcondition.spelledBy) (.present hstep.spelledBy)
    hbody

/-- What is printed is a statement, or else a declaration where one may stand. -/
def Stmt.Printed (f : Typeface) (inLoop listed : Bool) (depth : Nat) (s : Stmt Unit) : Prop :=
  (Clause.statement inLoop depth s.dangles s).SpelledBy (s.tokens f) ∨
    listed = true ∧ (Clause.declaration inLoop depth s).SpelledBy (s.tokens f)

theorem Stmt.Printed.statement {inLoop : Bool} {depth : Nat} {s : Stmt Unit}
    (h : s.Printed f inLoop false depth) :
    (Clause.statement inLoop depth s.dangles s).SpelledBy (s.tokens f) := by
  simpa [Stmt.Printed] using h

theorem Stmt.Printed.declaration {inLoop listed : Bool} {depth : Nat} {s : Stmt Unit}
    (h : s.Printed f inLoop listed depth) :
    (Clause.declaration inLoop depth s).SpelledBy (s.tokens f) := by
  obtain h | ⟨-, h⟩ := h
  · exact .plain h
  · exact h

mutual

theorem Stmt.Shaped.printed {inLoop listed : Bool} {depth : Nat} : {s : Stmt Unit} →
    s.Shaped f inLoop listed depth → s.Printed f inLoop listed depth
  | .block _, ⟨hdepth, hbody⟩ =>
    .inl (.nested hdepth
      (.block (f.mark_kind _) (f.mark_kind _) (Stmt.AllShaped.spelledBy hbody)))
  | .jump .exit _, ⟨hdepth, hloop, hkeyword⟩ =>
    .inl (hloop ▸ .nested hdepth (.exit hkeyword (f.mark_kind _)))
  | .jump .again _, ⟨hdepth, hloop, hkeyword⟩ =>
    .inl (hloop ▸ .nested hdepth (.again hkeyword (f.mark_kind _)))
  | .doLoop _ _, ⟨hdepth, hbody, hcondition⟩ =>
    .inl (.nested hdepth (.doLoop (f.mark_kind _) (f.mark_kind _) (f.mark_kind _)
      (f.mark_kind _) (f.mark_kind _) hbody.printed.statement hcondition.spelledBy))
  | .expression _, ⟨hdepth, hvalue⟩ =>
    .inl (.nested hdepth (.expression (f.mark_kind _) hvalue.spelledBy))
  | .print _, ⟨hdepth, hvalue⟩ =>
    .inl (.nested hdepth (.print (f.mark_kind _) (f.mark_kind _) hvalue.spelledBy))
  | .ifThen _ _, ⟨hdepth, hcondition, hbody⟩ =>
    .inl (.nested hdepth (.ifThen (f.mark_kind _) (f.mark_kind _) (f.mark_kind _)
      hcondition.spelledBy hbody.printed.statement))
  | .ifElse _ _ _, ⟨hdepth, hcondition, hclosed, hyes, hno⟩ =>
    .inl (.nested hdepth (.ifElse (f.mark_kind _) (f.mark_kind _) (f.mark_kind _)
      (f.mark_kind _) hcondition.spelledBy (hclosed ▸ hyes.printed.statement)
      hno.printed.statement))
  | .give _ _, ⟨hdepth, hkeyword, hvalue⟩ =>
    .inl (.nested hdepth (.give hkeyword (f.mark_kind _) (optional_spelledBy hvalue)))
  | .switch _ _, ⟨hdepth, hsubject, harms⟩ =>
    .inl (.nested hdepth (.switch (f.mark_kind _) (f.mark_kind _) (f.mark_kind _)
      (f.mark_kind _) (f.mark_kind _) hsubject.spelledBy harms.spelledBy))
  | .loop _ _, ⟨hdepth, hcondition, hbody⟩ =>
    .inl (.nested hdepth (.whileLoop (f.mark_kind _) (f.mark_kind _) (f.mark_kind _)
      hcondition.spelledBy hbody.printed.statement))
  | .loopStep _ _ _, ⟨hdepth, hcondition, hbody, _, hstep, he⟩ =>
    .inl (hstep ▸ .nested hdepth (step_spelledBy hcondition he hbody.printed.statement))
  | .var _ _, h => .inr ⟨h.1, h.var_spelledBy⟩
  | .function _ _ _, ⟨hlisted, hdepth, hname, hmany, hparams, hbody⟩ =>
    .inr ⟨hlisted, .function (f.mark_kind _) hname (f.mark_kind _) (f.mark_kind _)
      (f.mark_kind _) (f.mark_kind _) hmany hdepth (params_spelledBy hparams)
      (Stmt.AllShaped.spelledBy hbody)⟩

theorem Stmt.AllShaped.spelledBy {inLoop : Bool} {depth : Nat} : {ss : List (Stmt Unit)} →
    Stmt.AllShaped f inLoop depth ss →
      (Clause.list inLoop depth ss).SpelledBy (Stmt.tokensAll f ss)
  | [], _ => .nil
  | _ :: _, ⟨hs, hss⟩ => .cons hs.printed.declaration (Stmt.AllShaped.spelledBy hss)

theorem Arms.Shaped.spelledBy {inLoop : Bool} {depth : Nat} : {as : Arms Unit} →
    as.Shaped f inLoop depth → (Clause.arms inLoop depth as).SpelledBy (as.tokens f)
  | .done, _ => .noArm
  | .otherwise _, hbody =>
    .otherwise (f.mark_kind _) (f.mark_kind _) (Stmt.Shaped.printed hbody).statement
  | .case _ _ _, ⟨hcondition, hbody, hrest⟩ =>
    .case (f.mark_kind _) (f.mark_kind _) hcondition.spelledBy hbody.printed.statement
      hrest.spelledBy

end

/-- Keywords and marks by the names of their classes, and one number only. -/
def Typeface.plain : Typeface := ⟨fun k => ⟨k, k.name, .start⟩, fun _ => "1", fun _ => rfl⟩

end Scriptlet

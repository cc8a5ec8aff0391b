import Scriptlet.Parse.Program

/-! The grammar of programs: which tokens spell which tree. No rule says how to find the tree. -/
namespace Scriptlet.Grammar

open Parse (Level)

/-- What an expression is made of: an expression that binds at least as tightly as a level, or the
arguments of a call. -/
inductive Phrase where
  | expr (level : Level) (e : Expr Unit)
  | arguments (es : List (Expr Unit))

/-- Operators of one level are joined from left to right, since only their left operand may be of
the same level; assignments and conditionals from right to left. -/
inductive Phrase.SpelledBy : Phrase → List Token → Prop where
  | tighter {level : Level} {e : Expr Unit} {ts : List Token}
    (inner : SpelledBy (.expr level.tighter e) ts) : SpelledBy (.expr level e) ts
  | binary {level : Level} {left right : Expr Unit} {op : Token} {ts us : List Token}
    (hop : op.kind ∈ level.operators) (hleft : SpelledBy (.expr level left) ts)
    (hright : SpelledBy (.expr level.tighter right) us) :
    SpelledBy (.expr level (.binary left op right)) (ts ++ op :: us)
  | assign {name equals : Token} {value : Expr Unit} {ts : List Token}
    (hname : name.kind = .identifier) (hequals : equals.kind = .equal)
    (hvalue : SpelledBy (.expr .assignment value) ts) :
    SpelledBy (.expr .assignment (.assign name value ())) (name :: equals :: ts)
  | conditional {question colon : Token} {condition yes no : Expr Unit} {ts us vs : List Token}
    (hquestion : question.kind = .question) (hcolon : colon.kind = .colon)
    (hcondition : SpelledBy (.expr .or condition) ts) (hyes : SpelledBy (.expr .comma yes) us)
    (hno : SpelledBy (.expr .conditional no) vs) :
    SpelledBy (.expr .conditional (.conditional condition yes no))
      (ts ++ question :: (us ++ colon :: vs))
  | unary {op : Token} {right : Expr Unit} {ts : List Token} (hop : op.kind ∈ [Kind.bang, .minus])
    (hright : SpelledBy (.expr .unary right) ts) :
    SpelledBy (.expr .unary (.unary op right)) (op :: ts)
  | call {left right : Token} {callee : Expr Unit} {args : List (Expr Unit)} {ts us : List Token}
    (hleft : left.kind = .leftParen) (hright : right.kind = .rightParen)
    (hmany : args.length ≤ maxArguments) (hcallee : SpelledBy (.expr .call callee) ts)
    (hargs : SpelledBy (.arguments args) us) :
    SpelledBy (.expr .call (.call callee right args)) (ts ++ left :: (us ++ [right]))
  | grouping {left right : Token} {inner : Expr Unit} {ts : List Token}
    (hleft : left.kind = .leftParen) (hright : right.kind = .rightParen)
    (hinner : SpelledBy (.expr .comma inner) ts) :
    SpelledBy (.expr .primary (.grouping inner)) (left :: (ts ++ [right]))
  | reference {name : Token} (hname : name.kind = .identifier) :
    SpelledBy (.expr .primary (.reference name ())) [name]
  | kwTrue {t : Token} (ht : t.kind = .kwTrue) :
    SpelledBy (.expr .primary (.literal (.bool true))) [t]
  | kwFalse {t : Token} (ht : t.kind = .kwFalse) :
    SpelledBy (.expr .primary (.literal (.bool false))) [t]
  | kwNil {t : Token} (ht : t.kind = .kwNil) : SpelledBy (.expr .primary (.literal .nil)) [t]
  | number {t : Token} {x : Float} (ht : t.kind = .number) (hx : readNumber? t.lexeme = some x) :
    SpelledBy (.expr .primary (.literal (.number x))) [t]
  | string {t : Token} (ht : t.kind = .string) :
    SpelledBy (.expr .primary (.literal (.string (Parse.unquote t.lexeme)))) [t]
  | noArgument : SpelledBy (.arguments []) []
  | oneArgument {e : Expr Unit} {ts : List Token} (he : SpelledBy (.expr .assignment e) ts) :
    SpelledBy (.arguments [e]) ts
  | moreArguments {comma : Token} {e f : Expr Unit} {es : List (Expr Unit)} {ts us : List Token}
    (hcomma : comma.kind = .comma) (he : SpelledBy (.expr .assignment e) ts)
    (hes : SpelledBy (.arguments (f :: es)) us) :
    SpelledBy (.arguments (e :: f :: es)) (ts ++ comma :: us)

/-- A whole expression: the comma binds loosest. -/
abbrev ExprSpelledBy (e : Expr Unit) (ts : List Token) : Prop := (Phrase.expr .comma e).SpelledBy ts

/-- An expression that may be left out. -/
inductive OptionalSpelledBy : Option (Expr Unit) → List Token → Prop where
  | absent : OptionalSpelledBy none []
  | present {e : Expr Unit} {ts : List Token} (he : ExprSpelledBy e ts) :
    OptionalSpelledBy (some e) ts

/-- The parameters of a function. -/
inductive ParamsSpelledBy : List Token → List Token → Prop where
  | none : ParamsSpelledBy [] []
  | one {p : Token} (hp : p.kind = .identifier) : ParamsSpelledBy [p] [p]
  | more {p comma q : Token} {ps ts : List Token} (hp : p.kind = .identifier)
    (hcomma : comma.kind = .comma) (hps : ParamsSpelledBy (q :: ps) ts) :
    ParamsSpelledBy (p :: q :: ps) (p :: comma :: ts)

/-- A variable declaration after its keyword. -/
inductive VarSpelledBy : Stmt Unit → List Token → Prop where
  | plain {name semicolon : Token} (hname : name.kind = .identifier)
    (hsemicolon : semicolon.kind = .semicolon) : VarSpelledBy (.var name none) [name, semicolon]
  | initialized {name equals semicolon : Token} {init : Expr Unit} {ts : List Token}
    (hname : name.kind = .identifier) (hequals : equals.kind = .equal)
    (hsemicolon : semicolon.kind = .semicolon) (hinit : ExprSpelledBy init ts) :
    VarSpelledBy (.var name (some init)) (name :: equals :: (ts ++ [semicolon]))

/-- What a `for` loop does first, through its semicolon. -/
inductive InitSpelledBy : Option (Stmt Unit) → List Token → Prop where
  | absent {semicolon : Token} (hsemicolon : semicolon.kind = .semicolon) :
    InitSpelledBy none [semicolon]
  | var {keyword : Token} {s : Stmt Unit} {ts : List Token} (hkeyword : keyword.kind = .kwVar)
    (hs : VarSpelledBy s ts) : InitSpelledBy (some s) (keyword :: ts)
  | expression {semicolon : Token} {e : Expr Unit} {ts : List Token}
    (hsemicolon : semicolon.kind = .semicolon) (he : ExprSpelledBy e ts) :
    InitSpelledBy (some (.expression e)) (ts ++ [semicolon])

/-- The tree of a `for` loop: a loop with a step, in a block after what it does first. Without a
condition it goes on for ever. -/
def forTree (init : Option (Stmt Unit)) (condition step : Option (Expr Unit)) (body : Stmt Unit) :
    Stmt Unit :=
  let condition := condition.getD (.literal (.bool true))
  let loop := match step with
    | none => .loop condition body
    | some e => .loopStep condition body (.expression e)
  match init with
  | none => loop
  | some s => .block [s, loop]

/-- What a program is made of. `inLoop`: a loop of the same function is around; `depth`: so many
statements and functions are around; `dangling`: it ends with an `if` that an `else` right after it
would belong to. -/
inductive Clause where
  | statement (inLoop : Bool) (depth : Nat) (dangling : Bool) (s : Stmt Unit)
  | form (inLoop : Bool) (depth : Nat) (dangling : Bool) (s : Stmt Unit)
  | declaration (inLoop : Bool) (depth : Nat) (s : Stmt Unit)
  | list (inLoop : Bool) (depth : Nat) (ss : List (Stmt Unit))
  | arms (inLoop : Bool) (depth : Nat) (arms : Arms Unit)

/-- A statement nests one deeper than what it stands in; its forms count themselves. A declaration
stands in lists only, a jump in loops only. The branch before an `else` must not be `dangling`, so
that each `else` belongs to the nearest `if` before it that has none. -/
inductive Clause.SpelledBy : Clause → List Token → Prop where
  | nested {inLoop dangling : Bool} {depth : Nat} {s : Stmt Unit} {ts : List Token}
    (hdepth : depth < maxNesting) (hs : SpelledBy (.form inLoop (depth + 1) dangling s) ts) :
    SpelledBy (.statement inLoop depth dangling s) ts
  | print {inLoop : Bool} {depth : Nat} {keyword semicolon : Token} {e : Expr Unit}
    {ts : List Token} (hkeyword : keyword.kind = .kwPrint)
    (hsemicolon : semicolon.kind = .semicolon) (he : ExprSpelledBy e ts) :
    SpelledBy (.form inLoop depth false (.print e)) (keyword :: (ts ++ [semicolon]))
  | block {inLoop : Bool} {depth : Nat} {left right : Token} {ss : List (Stmt Unit)}
    {ts : List Token} (hleft : left.kind = .leftBrace) (hright : right.kind = .rightBrace)
    (hss : SpelledBy (.list inLoop depth ss) ts) :
    SpelledBy (.form inLoop depth false (.block ss)) (left :: (ts ++ [right]))
  | ifThen {inLoop dangling : Bool} {depth : Nat} {keyword left right : Token}
    {condition : Expr Unit} {body : Stmt Unit} {ts us : List Token}
    (hkeyword : keyword.kind = .kwIf) (hleft : left.kind = .leftParen)
    (hright : right.kind = .rightParen) (hcondition : ExprSpelledBy condition ts)
    (hbody : SpelledBy (.statement inLoop depth dangling body) us) :
    SpelledBy (.form inLoop depth true (.ifThen condition body))
      (keyword :: left :: (ts ++ right :: us))
  | ifElse {inLoop dangling : Bool} {depth : Nat} {keyword left right kwElse : Token}
    {condition : Expr Unit} {yes no : Stmt Unit} {ts us vs : List Token}
    (hkeyword : keyword.kind = .kwIf) (hleft : left.kind = .leftParen)
    (hright : right.kind = .rightParen) (helse : kwElse.kind = .kwElse)
    (hcondition : ExprSpelledBy condition ts)
    (hyes : SpelledBy (.statement inLoop depth false yes) us)
    (hno : SpelledBy (.statement inLoop depth dangling no) vs) :
    SpelledBy (.form inLoop depth dangling (.ifElse condition yes no))
      (keyword :: left :: (ts ++ right :: (us ++ kwElse :: vs)))
  | switch {inLoop : Bool} {depth : Nat} {keyword left right leftBrace rightBrace : Token}
    {subject : Expr Unit} {arms : Arms Unit} {ts us : List Token}
    (hkeyword : keyword.kind = .kwSwitch) (hleft : left.kind = .leftParen)
    (hright : right.kind = .rightParen) (hleftBrace : leftBrace.kind = .leftBrace)
    (hrightBrace : rightBrace.kind = .rightBrace) (hsubject : ExprSpelledBy subject ts)
    (harms : SpelledBy (.arms inLoop depth arms) us) :
    SpelledBy (.form inLoop depth false (.switch subject arms))
      (keyword :: left :: (ts ++ right :: leftBrace :: (us ++ [rightBrace])))
  | whileLoop {inLoop dangling : Bool} {depth : Nat} {keyword left right : Token}
    {condition : Expr Unit} {body : Stmt Unit} {ts us : List Token}
    (hkeyword : keyword.kind = .kwWhile) (hleft : left.kind = .leftParen)
    (hright : right.kind = .rightParen) (hcondition : ExprSpelledBy condition ts)
    (hbody : SpelledBy (.statement true depth dangling body) us) :
    SpelledBy (.form inLoop depth dangling (.loop condition body))
      (keyword :: left :: (ts ++ right :: us))
  | forLoop {inLoop dangling : Bool} {depth : Nat} {keyword left semicolon right : Token}
    {init : Option (Stmt Unit)} {condition step : Option (Expr Unit)} {body : Stmt Unit}
    {ts us vs ws : List Token} (hkeyword : keyword.kind = .kwFor) (hleft : left.kind = .leftParen)
    (hsemicolon : semicolon.kind = .semicolon) (hright : right.kind = .rightParen)
    (hinit : InitSpelledBy init ts) (hcondition : OptionalSpelledBy condition us)
    (hstep : OptionalSpelledBy step vs)
    (hbody : SpelledBy (.statement true depth dangling body) ws) :
    SpelledBy (.form inLoop depth dangling (forTree init condition step body))
      (keyword :: left :: (ts ++ (us ++ semicolon :: (vs ++ right :: ws))))
  | doLoop {inLoop dangling : Bool} {depth : Nat} {keyword kwWhile left right semicolon : Token}
    {condition : Expr Unit} {body : Stmt Unit} {ts us : List Token}
    (hkeyword : keyword.kind = .kwDo) (hwhile : kwWhile.kind = .kwWhile)
    (hleft : left.kind = .leftParen) (hright : right.kind = .rightParen)
    (hsemicolon : semicolon.kind = .semicolon)
    (hbody : SpelledBy (.statement true depth dangling body) ts)
    (hcondition : ExprSpelledBy condition us) :
    SpelledBy (.form inLoop depth false (.doLoop body condition))
      (keyword :: (ts ++ kwWhile :: left :: (us ++ [right, semicolon])))
  | exit {depth : Nat} {keyword semicolon : Token} (hkeyword : keyword.kind = .kwBreak)
    (hsemicolon : semicolon.kind = .semicolon) :
    SpelledBy (.form true depth false (.jump .exit keyword)) [keyword, semicolon]
  | again {depth : Nat} {keyword semicolon : Token} (hkeyword : keyword.kind = .kwContinue)
    (hsemicolon : semicolon.kind = .semicolon) :
    SpelledBy (.form true depth false (.jump .again keyword)) [keyword, semicolon]
  | give {inLoop : Bool} {depth : Nat} {keyword semicolon : Token} {value : Option (Expr Unit)}
    {ts : List Token} (hkeyword : keyword.kind = .kwReturn)
    (hsemicolon : semicolon.kind = .semicolon) (hvalue : OptionalSpelledBy value ts) :
    SpelledBy (.form inLoop depth false (.give keyword value)) (keyword :: (ts ++ [semicolon]))
  | expression {inLoop : Bool} {depth : Nat} {semicolon : Token} {e : Expr Unit}
    {ts : List Token} (hsemicolon : semicolon.kind = .semicolon) (he : ExprSpelledBy e ts) :
    SpelledBy (.form inLoop depth false (.expression e)) (ts ++ [semicolon])
  | plain {inLoop dangling : Bool} {depth : Nat} {s : Stmt Unit} {ts : List Token}
    (hs : SpelledBy (.statement inLoop depth dangling s) ts) :
    SpelledBy (.declaration inLoop depth s) ts
  | var {inLoop : Bool} {depth : Nat} {keyword : Token} {s : Stmt Unit} {ts : List Token}
    (hkeyword : keyword.kind = .kwVar) (hs : VarSpelledBy s ts) :
    SpelledBy (.declaration inLoop depth s) (keyword :: ts)
  | function {inLoop : Bool} {depth : Nat} {keyword name left right leftBrace rightBrace : Token}
    {params : List Token} {body : List (Stmt Unit)} {ts us : List Token}
    (hkeyword : keyword.kind = .kwFunction) (hname : name.kind = .identifier)
    (hleft : left.kind = .leftParen) (hright : right.kind = .rightParen)
    (hleftBrace : leftBrace.kind = .leftBrace) (hrightBrace : rightBrace.kind = .rightBrace)
    (hmany : params.length ≤ maxArguments) (hdepth : depth < maxNesting)
    (hparams : ParamsSpelledBy params ts) (hbody : SpelledBy (.list false (depth + 1) body) us) :
    SpelledBy (.declaration inLoop depth (.function name params body))
      (keyword :: name :: left :: (ts ++ right :: leftBrace :: (us ++ [rightBrace])))
  | nil {inLoop : Bool} {depth : Nat} : SpelledBy (.list inLoop depth []) []
  | cons {inLoop : Bool} {depth : Nat} {s : Stmt Unit} {ss : List (Stmt Unit)}
    {ts us : List Token} (hs : SpelledBy (.declaration inLoop depth s) ts)
    (hss : SpelledBy (.list inLoop depth ss) us) :
    SpelledBy (.list inLoop depth (s :: ss)) (ts ++ us)
  | noArm {inLoop : Bool} {depth : Nat} : SpelledBy (.arms inLoop depth .done) []
  | otherwise {inLoop dangling : Bool} {depth : Nat} {keyword colon : Token} {body : Stmt Unit}
    {ts : List Token} (hkeyword : keyword.kind = .kwDefault) (hcolon : colon.kind = .colon)
    (hbody : SpelledBy (.statement inLoop depth dangling body) ts) :
    SpelledBy (.arms inLoop depth (.otherwise body)) (keyword :: colon :: ts)
  | case {inLoop dangling : Bool} {depth : Nat} {keyword colon : Token} {condition : Expr Unit}
    {body : Stmt Unit} {rest : Arms Unit} {ts us vs : List Token}
    (hkeyword : keyword.kind = .kwCase) (hcolon : colon.kind = .colon)
    (hcondition : ExprSpelledBy condition ts)
    (hbody : SpelledBy (.statement inLoop depth dangling body) us)
    (hrest : SpelledBy (.arms inLoop depth rest) vs) :
    SpelledBy (.arms inLoop depth (.case condition body rest))
      (keyword :: (ts ++ colon :: (us ++ vs)))

/-- A whole program, at top level. -/
abbrev ProgramSpelledBy (program : List (Stmt Unit)) (ts : List Token) : Prop :=
  (Clause.list false 0 program).SpelledBy ts

end Scriptlet.Grammar

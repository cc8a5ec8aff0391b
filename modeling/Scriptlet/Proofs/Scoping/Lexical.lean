import Scriptlet.Proofs.Layout.Numbered
import Scriptlet.Proofs.Layout.Resolving
import Scriptlet.Proofs.Parsing.Soundness
import Scriptlet.Proofs.Scoping.Offences
import Scriptlet.Scan

/-! Addresses are lexical scoping. The resolver goes by what it has met before; in a parsed program
this is what stands before in the text, as far as declarations around the use go. -/
namespace Scriptlet

variable {ρ : Type}

def Node.token : Node ρ → Token
  | .declares name | .uses name _ _ => name
  | .gives keyword | .jumps _ keyword => keyword

def Node.unmarked : Node ρ → Node Unit
  | .declares name => .declares name
  | .uses name assigns _ => .uses name assigns ()
  | .gives keyword => .gives keyword
  | .jumps j keyword => .jumps j keyword

namespace Occurrence

def unmarked (o : Occurrence ρ) : Occurrence Unit := ⟨o.route, o.node.unmarked⟩

theorem unmarked_unit (o : Occurrence Unit) : o.unmarked = o := by
  obtain ⟨r, node⟩ := o
  cases node <;> rfl

def line (o : Occurrence ρ) : Nat := o.node.token.pos.line

/-- The one is a declaration in a block or function around the other one. -/
def Concerns (o o' : Occurrence ρ) : Prop :=
  ∃ scope ∈ o'.route.scopes, ∃ x, o.declaresIn scope x = true

end Occurrence

/-- These are all in the text that the tokens are of, and where one of them is a declaration around
another one, they are in its order. -/
structure InText (ts : List Token) (os : List (Occurrence ρ)) : Prop where
  within : ∀ o ∈ os, o.node.token ∈ ts
  ordered : (ts.Pairwise fun t u => t.pos.line < u.pos.line) →
    os.Pairwise fun o o' => o.Concerns o' ∨ o'.Concerns o → o.line < o'.line

namespace InText

variable {ts us : List Token} {os os' : List (Occurrence ρ)} {r : Route}

theorem nil : InText ts ([] : List (Occurrence ρ)) := ⟨List.forall_mem_nil _, fun _ => .nil⟩

theorem append (h : InText ts os) (h' : InText us os') : InText (ts ++ us) (os ++ os') where
  within := List.forall_mem_append.2
    ⟨fun o ho => List.mem_append_left us (h.within o ho),
      fun o ho => List.mem_append_right ts (h'.within o ho)⟩
  ordered hsorted := by
    obtain ⟨hts, hus, hbetween⟩ := List.pairwise_append.1 hsorted
    refine List.pairwise_append.2 ⟨h.ordered hts, h'.ordered hus, fun o ho o' ho' _ => ?_⟩
    exact hbetween _ (h.within o ho) _ (h'.within o' ho')

/-- Other tokens may stand between. -/
theorem mono (h : InText ts os) (hsub : ts.Sublist us) : InText us os where
  within o ho := hsub.subset (h.within o ho)
  ordered hsorted := h.ordered (hsorted.sublist hsub)

theorem skip {t : Token} (h : InText ts os) : InText (t :: ts) os :=
  h.mono (List.sublist_cons_self t ts)

theorem before (h : InText ts os) (us : List Token) : InText (ts ++ us) os :=
  h.mono (List.sublist_append_left ts us)

theorem cons (node : Node ρ) (h : InText ts os) : InText (node.token :: ts) (⟨r, node⟩ :: os) :=
  have hfirst : InText [node.token] [⟨r, node⟩] := ⟨by simp, fun _ => List.pairwise_singleton _ _⟩
  hfirst.append h

theorem not_concerns {o : Occurrence ρ}
    (ho : ∃ name assigns mark, o = ⟨r, .uses name assigns mark⟩) (o' : Occurrence ρ) :
    ¬ o.Concerns o' := by
  rintro ⟨scope, -, x, hdeclares⟩
  obtain ⟨_, _, _, rfl⟩ := ho
  cases hdeclares

/-- Uses do not concern each other. -/
theorem uses (hos : ∀ o ∈ os, ∃ name assigns mark, o = ⟨r, .uses name assigns mark⟩)
    (hwithin : ∀ o ∈ os, o.node.token ∈ ts) : InText ts os where
  within := hwithin
  ordered _ := by
    refine List.pairwise_of_forall_mem_list fun o ho o' ho' hconcerns => ?_
    exact hconcerns.elim (absurd · (not_concerns (hos o ho) o'))
      (absurd · (not_concerns (hos o' ho') o))

/-- Uses may come later than in the text where nothing that they pass over is declared around
them. -/
theorem later (h : InText ts os) (h' : InText us os') (hos : Inert os r.scopes)
    (hos' : ∀ o ∈ os', ∃ name assigns mark, o = ⟨r, .uses name assigns mark⟩) :
    InText (us ++ ts) (os ++ os') where
  within := List.forall_mem_append.2
    ⟨fun o ho => List.mem_append_right us (h.within o ho),
      fun o ho => List.mem_append_left ts (h'.within o ho)⟩
  ordered hsorted := by
    obtain ⟨hus, hts, -⟩ := List.pairwise_append.1 hsorted
    refine List.pairwise_append.2 ⟨h.ordered hts, h'.ordered hus, ?_⟩
    rintro o ho o' ho' (⟨scope, hscope, x, hdeclares⟩ | hconcerns)
    · obtain ⟨_, _, _, rfl⟩ := hos' o' ho'
      exact absurd hdeclares (List.any_eq_false.1 (hos scope hscope x) o ho)
    · exact absurd hconcerns (not_concerns (hos' o' ho') o)

end InText

theorem Expr.inert (e : Expr ρ) (r : Route) {rs : List Route} : Inert (e.occurrences r) rs :=
  .uses fun _ => e.mem_occurrences

namespace Grammar

def Phrase.occurrences (r : Route) : Phrase → List (Occurrence Unit)
  | .expr _ e => e.occurrences r
  | .arguments es => Expr.occurrencesIn r es

/-- The names in an expression are among its tokens. -/
theorem Phrase.SpelledBy.within {p : Phrase} {ts : List Token} (h : p.SpelledBy ts) (r : Route) :
    ∀ o ∈ p.occurrences r, o.node.token ∈ ts := by
  induction h with
  | tighter _ ih => exact ih
  | binary _ _ _ ihleft ihright =>
    exact List.forall_mem_append.2
      ⟨fun o ho => by simp [ihleft o ho], fun o ho => by simp [ihright o ho]⟩
  | assign _ _ _ ih =>
    refine List.forall_mem_append.2 ⟨fun o ho => by simp [ih o ho], fun o ho => ?_⟩
    obtain rfl := List.mem_singleton.1 ho
    simp [Node.token]
  | conditional _ _ _ _ _ ihcondition ihyes ihno =>
    refine List.forall_mem_append.2 ⟨List.forall_mem_append.2 ⟨?_, ?_⟩, ?_⟩
    · exact fun o ho => by simp [ihcondition o ho]
    · exact fun o ho => by simp [ihyes o ho]
    · exact fun o ho => by simp [ihno o ho]
  | unary _ _ ih => exact fun o ho => List.mem_cons_of_mem _ (ih o ho)
  | call _ _ _ _ _ ihcallee ihargs =>
    exact List.forall_mem_append.2
      ⟨fun o ho => by simp [ihcallee o ho], fun o ho => by simp [ihargs o ho]⟩
  | grouping _ _ _ ih => exact fun o ho => by simp [ih o ho]
  | reference =>
    intro o ho
    obtain rfl := List.mem_singleton.1 ho
    simp [Node.token]
  | kwTrue | kwFalse | kwNil | number | string | noArgument => exact List.forall_mem_nil _
  | oneArgument _ ih => exact fun o ho => ih o (by simpa [occurrences, Expr.occurrencesIn] using ho)
  | moreArguments _ _ _ ihe ihes =>
    exact List.forall_mem_append.2
      ⟨fun o ho => by simp [ihe o ho], fun o ho => by simp [ihes o ho]⟩

theorem ExprSpelledBy.inText {e : Expr Unit} {ts : List Token} (h : ExprSpelledBy e ts)
    (r : Route) : InText ts (e.occurrences r) :=
  .uses (fun _ => e.mem_occurrences) (h.within r)

theorem OptionalSpelledBy.inText {e : Option (Expr Unit)} {ts : List Token}
    (h : OptionalSpelledBy e ts) (r : Route) : InText ts (Expr.occurrences? r e) := by
  cases h with
  | absent => exact .nil
  | present he => exact he.inText r

theorem ParamsSpelledBy.inText {ps ts : List Token} (h : ParamsSpelledBy ps ts) (r : Route) :
    InText ts (ps.map fun p => (⟨r, .declares p⟩ : Occurrence Unit)) := by
  induction h with
  | none => exact .nil
  | one _ => exact .cons (.declares _) .nil
  | more _ _ _ ih => exact .cons (.declares _) ih.skip

theorem VarSpelledBy.inText {s : Stmt Unit} {ts : List Token} (h : VarSpelledBy s ts) (r : Route) :
    InText ts (s.occurrences r) := by
  cases h with
  | plain => exact .cons (.declares _) (.skip .nil)
  | initialized _ _ _ hinit => exact .cons (.declares _) ((hinit.inText _).before _).skip

/-- A clause whose names are in order in the text. Where it is no declaration, it declares nothing
in the blocks and functions around. -/
def Clause.InOrder (ts : List Token) : Clause → Prop
  | .statement _ _ _ s | .form _ _ _ s =>
    ∀ r : Route, InText ts (s.occurrences r) ∧ Inert (s.occurrences r) r.scopes
  | .declaration _ _ s => ∀ r : Route, InText ts (s.occurrences r)
  | .list _ _ ss => ∀ (r : Route) (i : Nat), InText ts (Stmt.occurrencesIn r i ss)
  | .arms _ _ as => ∀ (r : Route) (i : Nat),
    InText ts (as.occurrences r i) ∧ Inert (as.occurrences r i) r.scopes

/-- The step of a loop stands before the body, and comes after it in the traversal. -/
theorem OptionalSpelledBy.inOrder_loop {inLoop dangling : Bool} {depth : Nat}
    {condition step : Option (Expr Unit)} {body : Stmt Unit} {us vs ws : List Token}
    {semicolon right : Token} (hcondition : OptionalSpelledBy condition us)
    (hstep : OptionalSpelledBy step vs)
    (hbody : (Clause.statement inLoop depth dangling body).InOrder ws) :
    (Clause.form inLoop depth dangling (forTree none condition step body)).InOrder
      (us ++ semicolon :: (vs ++ right :: ws)) := fun r => by
  obtain ⟨hinText, hinert⟩ := hbody (.loopBody :: r)
  have hfirst : InText us
      ((condition.getD (.literal (.bool true))).occurrences (.expression :: r)) := by
    cases hcondition with
    | absent => exact .nil
    | present he => exact he.inText _
  have hfirstInert :
      Inert ((condition.getD (.literal (.bool true))).occurrences (.expression :: r)) r.scopes :=
    Expr.inert _ _
  cases hstep with
  | absent => exact ⟨hfirst.append hinText.skip.skip, hfirstInert.append hinert⟩
  | @present e _ he =>
    have hboth : InText (vs ++ right :: ws)
        (body.occurrences (.loopBody :: r) ++ e.occurrences (.expression :: .item 0 :: r)) :=
      hinText.skip.later (r := .expression :: .item 0 :: r) (he.inText _) hinert
        fun _ => e.mem_occurrences
    refine ⟨?_, (hfirstInert.append hinert).append (e.inert _)⟩
    simpa only [forTree, Stmt.occurrences, List.append_assoc] using hfirst.append hboth.skip

theorem InitSpelledBy.inOrder {inLoop dangling : Bool} {depth : Nat} {init : Option (Stmt Unit)}
    {condition step : Option (Expr Unit)} {body : Stmt Unit} {ts us : List Token}
    (hinit : InitSpelledBy init ts)
    (hloop : (Clause.form inLoop depth dangling (forTree none condition step body)).InOrder us) :
    (Clause.form inLoop depth dangling (forTree init condition step body)).InOrder (ts ++ us) := by
  have hlist (r : Route) :
      InText us (Stmt.occurrencesIn r 1 [forTree none condition step body]) := by
    simpa only [Stmt.occurrencesIn, List.append_nil] using (hloop (.item 1 :: r)).1
  cases hinit with
  | absent => exact fun r => ⟨(hloop r).1.skip, (hloop r).2⟩
  | var _ hs =>
    exact fun r => ⟨((hs.inText _).append (hlist (.block :: r))).skip,
      .inside (.inl rfl) (Stmt.underIn _ _ 0)⟩
  | expression _ he =>
    exact fun r => ⟨((he.inText _).before _).append (hlist (.block :: r)),
      .inside (.inl rfl) (Stmt.underIn _ _ 0)⟩

/-- The names of a program stand in the text as they are met in the traversal, steps of loops
apart, which declare nothing. -/
theorem Clause.SpelledBy.inOrder {c : Clause} {ts : List Token} (h : c.SpelledBy ts) :
    c.InOrder ts := by
  induction h with
  | nested _ _ ih => exact ih
  | print _ _ he => exact fun r => ⟨((he.inText _).before _).skip, Expr.inert _ _⟩
  | expression _ he => exact fun r => ⟨(he.inText _).before _, Expr.inert _ _⟩
  | block _ _ _ ih =>
    exact fun r => ⟨((ih _ 0).before _).skip, .inside (.inl rfl) (Stmt.underIn _ _ _)⟩
  | ifThen _ _ _ hcondition _ ih =>
    exact fun r => ⟨((hcondition.inText _).append (ih _).1.skip).skip.skip,
      (Expr.inert _ _).append (ih (.item 0 :: r)).2⟩
  | ifElse _ _ _ _ hcondition _ _ ihyes ihno =>
    intro r
    obtain ⟨hyes, hyesInert⟩ := ihyes (.item 0 :: r)
    obtain ⟨hno, hnoInert⟩ := ihno (.item 1 :: r)
    refine ⟨?_, ((Expr.inert _ _).append hyesInert).append hnoInert⟩
    simpa only [Stmt.occurrences, List.append_assoc] using
      ((hcondition.inText (.expression :: r)).append (hyes.append hno.skip).skip).skip.skip
  | switch _ _ _ _ _ hsubject _ ih =>
    exact fun r => ⟨((hsubject.inText _).append ((ih r 0).1.before _).skip.skip).skip.skip,
      (Expr.inert _ _).append (ih r 0).2⟩
  | whileLoop _ _ _ hcondition _ ih =>
    exact fun r => ⟨((hcondition.inText _).append (ih _).1.skip).skip.skip,
      (Expr.inert _ _).append (ih (.loopBody :: r)).2⟩
  | forLoop _ _ _ _ hinit hcondition hstep _ ih =>
    intro r
    obtain ⟨hinText, hinert⟩ := hinit.inOrder (hcondition.inOrder_loop hstep ih) r
    exact ⟨hinText.skip.skip, hinert⟩
  | doLoop _ _ _ _ _ _ hcondition ih =>
    exact fun r => ⟨((ih _).1.append ((hcondition.inText _).before _).skip.skip).skip,
      (ih (.loopBody :: r)).2.append (Expr.inert _ _)⟩
  | exit | again => exact fun r => ⟨.cons (.jumps _ _) (.skip .nil), fun _ _ _ => rfl⟩
  | give _ _ hvalue =>
    refine fun r => ⟨.cons (.gives _) ((hvalue.inText _).before _), ?_⟩
    have hkeyword (t : Token) : Inert [(⟨r, .gives t⟩ : Occurrence Unit)] r.scopes :=
      fun _ _ _ => rfl
    exact (hkeyword _).append (.uses fun _ => Expr.mem_occurrences?)
  | plain _ ih => exact fun r => (ih r).1
  | var _ hs => exact fun r => (hs.inText r).skip
  | function _ _ _ _ _ _ _ _ hparams _ ih =>
    exact fun r => .skip (.cons (.declares _)
      ((hparams.inText _).append ((ih _ 0).before _).skip.skip).skip)
  | nil => exact fun _ _ => .nil
  | cons _ _ ihs ihss => exact fun r i => (ihs _).append (ihss r (i + 1))
  | noArm => exact fun _ _ => ⟨.nil, fun _ _ _ => rfl⟩
  | otherwise _ _ _ ih => exact fun r i => ⟨(ih _).1.skip.skip, (ih (.item i :: r)).2⟩
  | case _ _ hcondition _ _ ihbody ihrest =>
    intro r i
    obtain ⟨hbody, hbodyInert⟩ := ihbody (.item i :: r)
    obtain ⟨hrest, hrestInert⟩ := ihrest r (i + 1)
    refine ⟨?_, ((Expr.inert _ _).append hbodyInert).append hrestInert⟩
    simpa only [Arms.occurrences, List.append_assoc] using
      ((hcondition.inText (.expression :: r)).append (hbody.append hrest).skip).skip

end Grammar

theorem pairwise_numbered (tokens : List Token) :
    (numbered tokens).Pairwise fun t u => t.pos.line < u.pos.line := by
  rw [← List.pairwise_map, lines_numbered]
  exact List.pairwise_lt_range

theorem parsed_inText {room : Nat} {tokens : List Token} {program : List (Stmt Unit)}
    (h : parse room tokens = .ok ⟨program, []⟩) : InText tokens (occurrences program) := by
  obtain ⟨ts, eof, rest, rfl, -, hspelled⟩ := Parse.parse_reads h
  exact (hspelled.inOrder [] 0).before _

/-- Before the use in the text, the name is declared in that block or function. -/
def Declares (program : List (Stmt ρ)) (scope : Route) (use : Token) : Prop :=
  ∃ o ∈ occurrences program, o.declaresIn scope use.lexeme = true ∧ o.line < use.pos.line

/-- What was met before in the traversal is what stands before in the text. -/
theorem declaredIn_iff {program : List (Stmt ρ)} {ts : List Token}
    (hts : ts.Pairwise fun t u => t.pos.line < u.pos.line)
    (hinText : InText ts (occurrences program)) {before after : List (Occurrence ρ)} {r : Route}
    {name : Token} {assigns : Bool} {mark : ρ}
    (hsplit : occurrences program = before ++ ⟨r, .uses name assigns mark⟩ :: after)
    {scope : Route} (hscope : scope ∈ r.scopes) :
    declaredIn before scope name.lexeme = true ↔ Declares program scope name := by
  have hordered := hinText.ordered hts
  rw [hsplit] at hordered
  obtain ⟨-, hafter, hbefore⟩ := List.pairwise_append.1 hordered
  have hlater := (List.pairwise_cons.1 hafter).1
  have hconcerns {o : Occurrence ρ} (ho : o.declaresIn scope name.lexeme = true) :
      o.Concerns ⟨r, .uses name assigns mark⟩ := ⟨scope, hscope, _, ho⟩
  constructor
  · intro hdeclared
    obtain ⟨o, ho, hdeclares⟩ := List.any_eq_true.1 hdeclared
    refine ⟨o, by simp [hsplit, ho], hdeclares, ?_⟩
    exact hbefore o ho _ List.mem_cons_self (.inl (hconcerns hdeclares))
  · rintro ⟨o, ho, hdeclares, hline⟩
    rw [hsplit] at ho
    rcases List.mem_append.1 ho with ho | ho
    · exact List.any_eq_true.2 ⟨o, ho, hdeclares⟩
    · rcases List.mem_cons.1 ho with rfl | ho
      · cases hdeclares
      · have hlate := hlater o ho (.inr (hconcerns hdeclares))
        exact absurd hline (Nat.lt_asymm hlate)

theorem mem_addressed {earlier os : List (Occurrence ρ)} {o' : Occurrence Address}
    (h : o' ∈ addressed earlier os) :
    ∃ before o after, os = before ++ o :: after ∧ o' = o.addressed (earlier ++ before) := by
  induction os generalizing earlier with
  | nil => cases h
  | cons o os ih =>
    rcases List.mem_cons.1 h with rfl | h
    · exact ⟨[], o, os, rfl, by simp⟩
    · obtain ⟨before, o, after, rfl, rfl⟩ := ih h
      exact ⟨_ :: before, o, after, rfl, by simp⟩

/-- Addresses are all that the resolver adds. -/
theorem addressed_unmarked (earlier os : List (Occurrence ρ)) :
    (addressed earlier os).map Occurrence.unmarked = os.map Occurrence.unmarked := by
  induction os generalizing earlier with
  | nil => rfl
  | cons o os ih =>
    have ho : (o.addressed earlier).unmarked = o.unmarked := by
      obtain ⟨r, node⟩ := o
      cases node <;> rfl
    rw [addressed, List.map_cons, List.map_cons, ho, ih]

theorem resolve_unmarked (program : List (Stmt Unit)) :
    (occurrences (resolve program)).map Occurrence.unmarked = occurrences program := by
  rw [(traversed program).resolved_eq, addressed_unmarked]
  exact (List.map_congr_left fun o _ => o.unmarked_unit).trans (List.map_id _)

/-- A use was met at some point of the traversal, and its address depends on what came before. -/
theorem address_of_mem {program : List (Stmt ρ)} {r : Route} {name : Token} {assigns : Bool}
    {address : Address} (h : ⟨r, .uses name assigns address⟩ ∈ occurrences (resolve program)) :
    ∃ before mark after, occurrences program = before ++ ⟨r, .uses name assigns mark⟩ :: after ∧
      address = r.address before name.lexeme := by
  rw [(traversed program).resolved_eq] at h
  obtain ⟨before, ⟨r', node⟩, after, hsplit, heq⟩ := mem_addressed h
  cases node with
  | declares | gives | jumps => cases heq
  | uses _ _ mark =>
    cases heq
    exact ⟨before, mark, after, hsplit, rfl⟩

namespace Route

variable {earlier : List (Occurrence ρ)} {r : Route} {x : String}

theorem address_ne_global :
    r.address earlier x ≠ .global ↔ ∃ scope ∈ r.scopes, declaredIn earlier scope x = true := by
  rw [address, ← List.any_eq_true, ← List.findIdx?_isSome]
  cases r.scopes.findIdx? fun scope => declaredIn earlier scope x <;> simp

theorem address_eq_up {inner outer : List Route} {scope : Route}
    (hscopes : r.scopes = inner ++ scope :: outer) (hscope : declaredIn earlier scope x = true)
    (hinner : ∀ q ∈ inner, declaredIn earlier q x = false) :
    r.address earlier x = .up inner.length := by
  have hnone : (inner.findIdx? fun q => declaredIn earlier q x) = none :=
    List.findIdx?_eq_none_iff.2 hinner
  have hindex : (r.scopes.findIdx? fun q => declaredIn earlier q x) = some inner.length := by
    simp [hscopes, List.findIdx?_append, hnone, List.findIdx?_cons, hscope]
  rw [address, hindex]

end Route

/-- Addresses are lexical scoping. A parsed program is considered with its tokens numbered, so that
of two names it can be told which one stands first in the text. Each use gets an address, which is
other than global if and only if the name was declared before, in a block or function around the
use; top level is none. The address is then the number of blocks and functions between the use and
the innermost that declares the name. -/
theorem addresses_are_lexical {room : Nat} {tokens : List Token} {program : List (Stmt Unit)}
    (h : parse room tokens = .ok ⟨program, []⟩) :
    ∃ placed, parse room (numbered tokens) = .ok ⟨placed, []⟩ ∧
      program = Stmt.movedAll (whereabouts tokens) placed ∧
      resolve program = Stmt.movedAll (whereabouts tokens) (resolve placed) ∧
      (occurrences (resolve placed)).map Occurrence.unmarked = occurrences placed ∧
      ∀ r name assigns address,
        ⟨r, .uses name assigns address⟩ ∈ occurrences (resolve placed) →
        (address ≠ .global ↔ ∃ scope ∈ r.scopes, Declares placed scope name) ∧
        ∀ inner scope outer, r.scopes = inner ++ scope :: outer → Declares placed scope name →
          (∀ q ∈ inner, ¬ Declares placed q name) → address = .up inner.length := by
  obtain ⟨placed, hplaced, rfl⟩ := parse_numbered h
  refine ⟨placed, hplaced, rfl, resolve_moved _ _, resolve_unmarked placed,
    fun r name assigns address huse => ?_⟩
  obtain ⟨before, mark, after, hsplit, rfl⟩ := address_of_mem huse
  have hiff {scope : Route} (hscope : scope ∈ r.scopes) :=
    declaredIn_iff (pairwise_numbered tokens) (parsed_inText hplaced) hsplit hscope
  constructor
  · rw [Route.address_ne_global]
    exact exists_congr fun scope => and_congr_right hiff
  · intro inner scope outer hscopes hdeclares hinner
    refine Route.address_eq_up hscopes ((hiff (by simp [hscopes])).2 hdeclares) fun q hq => ?_
    exact Bool.eq_false_iff.2 fun hdeclared =>
      hinner q hq ((hiff (by simp [hscopes, hq])).1 hdeclared)

/-- The function assigns to the global variable: the local one of that name is declared later. -/
theorem addresses_are_lexical_shadowed :
    let text := "var a;\x7bfunction f(b)\x7ba=f;\x7dvar a;\x7d"
    let name (x : String) (i : Nat) : Token := ⟨.identifier, x, ⟨i, 0⟩⟩
    let body : Route := [.expression, .item 0, .function, .item 0, .block, .item 1]
    ∃ program placed, parse 9 (scan text) = .ok ⟨program, []⟩ ∧
      parse 9 (numbered (scan text)) = .ok ⟨placed, []⟩ ∧
      ⟨body, .uses (name "a" 10) true .global⟩ ∈ occurrences (resolve placed) ∧
      (¬ ∃ scope ∈ body.scopes, Declares placed scope (name "a" 10)) ∧
      ⟨body, .uses (name "f" 12) false (.up 1)⟩ ∈ occurrences (resolve placed) ∧
      ∃ scope ∈ body.scopes, Declares placed scope (name "f" 12) := by
  intro text name body
  have hclean : (parse 9 (scan text)).toOption.map (·.reports.length) = some 0 := by decide +kernel
  have hmet : (parse 9 (numbered (scan text))).toOption.map (occurrences <| resolve ·.statements) =
      some [⟨[.item 0], .declares (name "a" 1)⟩,
        ⟨[.item 0, .block, .item 1], .declares (name "f" 5)⟩,
        ⟨[.function, .item 0, .block, .item 1], .declares (name "b" 7)⟩,
        ⟨body, .uses (name "f" 12) false (.up 1)⟩, ⟨body, .uses (name "a" 10) true .global⟩,
        ⟨[.item 1, .block, .item 1], .declares (name "a" 16)⟩] := by
    decide +kernel
  obtain ⟨⟨program, reports⟩, hparse, hlength⟩ : ∃ parsed, parse 9 (scan text) = .ok parsed ∧
      parsed.reports.length = 0 := by
    cases hparse : parse 9 (scan text) with
    | error fault =>
      rw [hparse] at hclean
      cases hclean
    | ok parsed =>
      rw [hparse] at hclean
      exact ⟨parsed, rfl, Option.some.inj hclean⟩
  obtain rfl := List.eq_nil_of_length_eq_zero hlength
  obtain ⟨placed, hplaced, -, -, -, haddress⟩ := addresses_are_lexical hparse
  rw [hplaced] at hmet
  have hall := Option.some.inj hmet
  have ha : ⟨body, .uses (name "a" 10) true .global⟩ ∈ occurrences (resolve placed) := by
    simp [hall]
  have hf : ⟨body, .uses (name "f" 12) false (.up 1)⟩ ∈ occurrences (resolve placed) := by
    simp [hall]
  exact ⟨program, placed, hparse, hplaced, ha,
    fun hdeclared => (haddress _ _ _ _ ha).1.2 hdeclared rfl, hf,
    (haddress _ _ _ _ hf).1.1 nofun⟩

end Scriptlet
